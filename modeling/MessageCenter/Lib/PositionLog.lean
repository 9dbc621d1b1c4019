import Mathlib.Data.List.Nodup
import Mathlib.Data.List.Range

/-!
# Logs indexed by position

A log whose entries carry the positions `0, 1, …` in order: the position of an
entry is its index, so it determines the entry.  Counters that are advanced by
one at every entry keep such a log.
-/

namespace Concurrency.PositionLog

universe u

variable {Entry : Type u} {pos : Entry → Nat} {log : List Entry} {next : Nat}

/-- The entries are numbered `0 … next - 1` in the order of the log. -/
def Numbered (pos : Entry → Nat) (log : List Entry) (next : Nat) : Prop :=
  log.map pos = List.range next

theorem numbered_nil : Numbered pos [] 0 := rfl

theorem Numbered.append (hlog : Numbered pos log next) {entry : Entry} (hpos : pos entry = next) :
    Numbered pos (log ++ [entry]) (next + 1) := by
  unfold Numbered at hlog ⊢
  rw [List.map_append, hlog, List.map_singleton, hpos, List.range_succ]

theorem Numbered.length (hlog : Numbered pos log next) : log.length = next := by
  have hlength := congrArg List.length hlog
  rwa [List.length_map, List.length_range] at hlength

theorem Numbered.nodup (hlog : Numbered pos log next) : (log.map pos).Nodup := by
  rw [hlog]
  exact List.nodup_range

theorem Numbered.getElem?_pos (hlog : Numbered pos log next) {entry : Entry}
    (hmem : entry ∈ log) : log[pos entry]? = some entry := by
  obtain ⟨index, hindex⟩ := List.mem_iff_getElem?.mp hmem
  have hpos : (log.map pos)[index]? = some (pos entry) := by
    rw [List.getElem?_map, hindex, Option.map_some]
  rw [hlog, List.getElem?_eq_some_iff] at hpos
  obtain ⟨_, hpos⟩ := hpos
  rw [List.getElem_range] at hpos
  rw [← hpos, hindex]

theorem Numbered.eq_of_pos_eq (hlog : Numbered pos log next) {first second : Entry}
    (hfirst : first ∈ log) (hsecond : second ∈ log) (heq : pos first = pos second) :
    first = second := by
  have hleft := hlog.getElem?_pos hfirst
  rw [heq, hlog.getElem?_pos hsecond, Option.some.injEq] at hleft
  exact hleft.symm

theorem Numbered.pos_lt (hlog : Numbered pos log next) {entry : Entry} (hmem : entry ∈ log) :
    pos entry < next := by
  have hrange : pos entry ∈ List.range next := hlog ▸ List.mem_map_of_mem hmem
  exact List.mem_range.mp hrange

/-- Behind the first `index` entries the positions are no smaller. -/
theorem Numbered.le_of_mem_drop (hlog : Numbered pos log next) {entry : Entry} {index : Nat}
    (hmem : entry ∈ log.drop index) : index ≤ pos entry := by
  obtain ⟨offset, hoffset⟩ := List.mem_iff_getElem?.mp hmem
  rw [List.getElem?_drop] at hoffset
  have hpos : (log.map pos)[index + offset]? = some (pos entry) := by
    rw [List.getElem?_map, hoffset, Option.map_some]
  rw [hlog, List.getElem?_eq_some_iff] at hpos
  obtain ⟨_, hpos⟩ := hpos
  rw [List.getElem_range] at hpos
  exact hpos ▸ Nat.le_add_right index offset

theorem Numbered.exists_of_lt (hlog : Numbered pos log next) {index : Nat} (hlt : index < next) :
    ∃ entry ∈ log, pos entry = index := by
  have hrange : index ∈ log.map pos := by
    rw [hlog]
    exact List.mem_range.mpr hlt
  exact List.mem_map.mp hrange

end Concurrency.PositionLog
