import MyDemo.Show.Lemmas.Picture
import MyDemo.Lib.Transition

/-!
# The viewer returns to rest
-/

namespace MyDemo.Show

open Transition

namespace PictureView

variable {s s' : PictureView}

end PictureView

end MyDemo.Show
