import Mathlib.Data.List.Dedup
import Ospray.Library.Literals

/-!
# Loops over unique values

A gang of lanes holds a value in each lane. A loop runs its body once for each value, for the lanes
that hold it. So every lane runs the body once, for its own value.
-/

namespace Library.ForeachUnique

variable {ι V α : Type*} [DecidableEq V]

/-- A pass of the loop, for the lanes that hold the value. -/
def pass (value : ι → V) (body : V → ι → α) (state : ι → α) (v : V) : ι → α :=
  fun lane => if value lane = v then body v lane else state lane

/-- `foreach_unique` -/
def foreachUnique (lanes : List ι) (value : ι → V) (body : V → ι → α) (state : ι → α) : ι → α :=
  (lanes.map value).dedup.foldl (pass value body) state

variable {value : ι → V} {body : V → ι → α} {lane : ι}

theorem foldl_pass_of_notMem {values : List V} (other : value lane ∉ values) (state : ι → α) :
    values.foldl (pass value body) state lane = state lane := by
  induction values generalizing state with
  | nil => rfl
  | cons v values ih =>
    obtain ⟨first, rest⟩ := not_or.mp (mt List.mem_cons.mpr other)
    rw [List.foldl_cons, ih rest, pass, if_neg first]

theorem foreachUnique_apply {lanes : List ι} (active : lane ∈ lanes) (state : ι → α) :
    foreachUnique lanes value body state lane = body (value lane) lane := by
  have present : value lane ∈ (lanes.map value).dedup := List.mem_dedup.mpr (List.mem_map_of_mem active)
  have distinct := List.nodup_dedup (lanes.map value)
  obtain ⟨before, after, split⟩ := List.append_of_mem present
  rw [split] at distinct
  have once : value lane ∉ after := (List.nodup_cons.mp (List.nodup_append.mp distinct).2.1).1
  rw [foreachUnique, split, List.foldl_append, List.foldl_cons, foldl_pass_of_notMem once, pass, if_pos rfl]

end Library.ForeachUnique
