import Mathlib.Data.List.Nodup

/-! Lists of entries under distinct keys: a value in another's place, and an entry more. -/

namespace SlothBox.Library
variable {κ ν : Type}

theorem map_fst_replace [DecidableEq κ] (entries : List (κ × ν)) (key : κ) (value : ν) :
    (entries.map fun entry => if entry.1 = key then (key, value) else entry).map Prod.fst = entries.map Prod.fst := by
  rw [List.map_map]
  apply List.map_congr_left
  intro entry _
  dsimp only [Function.comp]
  split
  next same => exact same.symm
  next => rfl

theorem nodup_concat {entries : List (κ × ν)} {key : κ} (value : ν) (distinct : (entries.map Prod.fst).Nodup)
    (absent : key ∉ entries.map Prod.fst) : ((entries ++ [(key, value)]).map Prod.fst).Nodup := by
  rw [List.map_append, List.map_singleton]
  exact distinct.append (List.nodup_singleton _) (List.disjoint_singleton.mpr absent)

end SlothBox.Library
