import MyDemo.Lib.CountingLoop
import MyDemo.Lib.Paging
import MyDemo.Sort.IntArray

/-!
# The repository of beans and its two data sources

`bypage` and `byitem` have the same repository, but for `getItemData`. `int` expressions wrap around.
-/

namespace MyDemo.Paging

open CountingLoop
open MyDemo.Sort (wrap)

structure Bean where
  id : ℤ
  name : JString
  deriving DecidableEq

def bean (i : ℤ) : Bean := ⟨i, jstring (toString i)⟩

structure DataRepository where
  pageSize : ℤ
  totalSize : ℤ

namespace DataRepository

def datas (r : DataRepository) : List Bean := (List.range r.totalSize.toNat).map (fun (i : ℕ) => bean (i + 1))

def getPageData (r : DataRepository) (key : ℤ) : Except Exn (List Bean) :=
  countUp (wrap (wrap (key - 1) * r.pageSize)) (wrap (wrap (key * r.pageSize) - 1) + 1)
    (fun result i => do return result ++ [← JArray.get r.datas i]) []

def getItemData (r : DataRepository) (key : ℤ) : Except Exn (List Bean) := do return [← JArray.get r.datas key]

end DataRepository

/-! ## MyPageKeyedDataSource -/

namespace MyPageKeyedDataSource

variable (pageSize totleSize : ℤ)

def dataRepository : DataRepository := ⟨pageSize, totleSize⟩

def loadInitial : Except Exn (List Bean × Option ℤ) := do
  return (← (dataRepository pageSize totleSize).getPageData 1, some 2)

def loadAfter (key : ℤ) : Except Exn (Option (List Bean × Option ℤ)) := do
  if key > totleSize.tdiv pageSize then return none
  return some (← (dataRepository pageSize totleSize).getPageData key, some (wrap (key + 1)))

def source : Paging.DataSource Exn ℤ Bean := ⟨loadInitial pageSize totleSize, loadAfter pageSize totleSize⟩

end MyPageKeyedDataSource

/-! ## MyItemKeyedDataSource -/

namespace MyItemKeyedDataSource

variable (pageSize totleSize : ℤ)

def dataRepository : DataRepository := ⟨pageSize, totleSize⟩

def getKey (item : Bean) : ℤ := item.id

def loadInitial : Except Exn (List Bean) := (dataRepository pageSize totleSize).getPageData 1

def loadAfter (key : ℤ) : Except Exn (Option (List Bean)) := do
  if key = totleSize then return none
  return some (← (dataRepository pageSize totleSize).getItemData key)

/-- The next key is that of the last item of a page. -/
def withKey (page : List Bean) : List Bean × Option ℤ := (page, page.getLast?.map getKey)

def source : Paging.DataSource Exn ℤ Bean where
  loadInitial := do return withKey (← loadInitial pageSize totleSize)
  loadAfter key := do return (← loadAfter pageSize totleSize key).map withKey

end MyItemKeyedDataSource

end MyDemo.Paging
