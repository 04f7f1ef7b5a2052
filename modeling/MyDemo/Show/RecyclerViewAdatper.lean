import Mathlib.Data.Rat.Floor

/-!
# The rows of the picture list

`RecyclerViewAdatper.kt`. A view holder is a row of two views; each binding of a row to a position starts
a load, whose answer comes later and writes into the views of that row. `π` is what Glide decodes.
-/

namespace MyDemo.Show

/-- The constants `TYPE_…` of `Constants.kt`. -/
inductive PictureType where
  | normalPicture
  | longPicture
  | video
  | error
  deriving DecidableEq, Repr

variable {π : Type*}

structure Resource (π : Type*) where
  width : ℕ
  height : ℕ
  pixels : π
  deriving DecidableEq

/-- `part resource width height` is the upper left part that `decodeRegion` cuts out. -/
inductive Bitmap (π : Type*) where
  | whole (resource : Resource π)
  | part (resource : Resource π) (width height : ℤ)
  | iconEmpty
  deriving DecidableEq

structure ViewType (π : Type*) where
  type : PictureType
  bitmap : Option (Bitmap π)
  deriving DecidableEq

/-- What a load calls back: `onResourceReady` or `onLoadFailed`. -/
inductive Outcome (π : Type*) where
  | resourceReady (resource : Resource π)
  | loadFailed
  deriving DecidableEq

structure Load (π : Type*) where
  holder : ℕ
  position : ℕ
  outcome : Option (Outcome π)
  deriving DecidableEq

/-- The views `type` and `img` of a holder. `load` is the load that its last binding has started. -/
structure ViewHolder (π : Type*) where
  typeVisible : Bool
  img : Option (Bitmap π)
  load : Option ℕ
  deriving DecidableEq

structure RecyclerViewAdatper (π : Type*) where
  screenWidth : ℕ
  screenHeight : ℕ
  datas : List (ViewType π)
  holders : List (ViewHolder π)
  loads : List (Load π)
  deriving DecidableEq

def setImageTypeVisibility (type : PictureType) (visible : Bool) : Bool :=
  match type with
  | .normalPicture => false
  | .longPicture => true
  | .video | .error => visible

namespace RecyclerViewAdatper

def new (screenWidth screenHeight : ℕ) (datas : List (ViewType π)) : RecyclerViewAdatper π :=
  ⟨screenWidth, screenHeight, datas, [], []⟩

/-- The bitmap and the type that a callback works out. -/
def picture (s : RecyclerViewAdatper π) : Outcome π → Bitmap π × PictureType
  | .resourceReady resource =>
      let n : ℚ := s.screenWidth / resource.width * resource.height / s.screenWidth
      if n > 3 / 2 then
        (.part resource 200 ⌊(200 * (s.screenHeight / s.screenWidth) : ℚ)⌋, .longPicture)
      else (.whole resource, .normalPicture)
  | .loadFailed => (.iconEmpty, .normalPicture)

def onCreateViewHolder (s : RecyclerViewAdatper π) : RecyclerViewAdatper π :=
  { s with holders := s.holders ++ [⟨true, none, none⟩] }

/-- The views of the row are reset, but for its picture, which stays until the load calls back. -/
def onBindViewHolder (s : RecyclerViewAdatper π) (p0 p1 : ℕ) (data : ViewType π) : RecyclerViewAdatper π :=
  { s with
    loads := s.loads ++ [⟨p0, p1, none⟩]
    holders := s.holders.modify p0 fun b =>
      { b with typeVisible := setImageTypeVisibility data.type false, load := some s.loads.length } }

/-- Either callback of the `i`-th load, which has captured the row `p0` and the position `p1`. -/
def onLoaded (s : RecyclerViewAdatper π) (i p0 p1 : ℕ) (outcome : Outcome π) : RecyclerViewAdatper π :=
  let (bitmap, type) := s.picture outcome
  { s with
    datas := s.datas.modify p1 fun data => { data with bitmap := some bitmap, type := type }
    holders := s.holders.modify p0 fun b =>
      { b with typeVisible := setImageTypeVisibility type b.typeVisible, img := some bitmap }
    loads := s.loads.modify i fun load => { load with outcome := some outcome } }

inductive Action (π : Type*) where
  | create
  | bind (p0 p1 : ℕ)
  | loaded (i : ℕ) (outcome : Outcome π)
  deriving DecidableEq

/-- Rows are bound to positions of the list, and a load calls back once. -/
def step (s : RecyclerViewAdatper π) : Action π → Option (RecyclerViewAdatper π)
  | .create => some s.onCreateViewHolder
  | .bind p0 p1 =>
      match s.datas[p1]? with
      | none => none
      | some data => if p0 < s.holders.length then some (s.onBindViewHolder p0 p1 data) else none
  | .loaded i outcome =>
      match s.loads[i]? with
      | none => none
      | some load =>
          match load.outcome with
          | some _ => none
          | none => some (s.onLoaded i load.holder load.position outcome)

end RecyclerViewAdatper

end MyDemo.Show
