import Mathlib.Data.Finset.Card
import Mathlib.Data.List.Induction
import Mathlib.Tactic.Common

/-!
# The first member for each key

`firsts key l` are the members of `l` whose key did not occur earlier, in order.
-/

namespace Kbd.Lib

variable {α κ : Type} [DecidableEq κ] (key : α → κ)

def firsts (l : List α) : List α :=
  (l.zipIdx.filter fun p => key p.1 ∉ (l.take p.2).map key).map Prod.fst

@[simp] theorem firsts_nil : firsts key [] = [] := rfl

/-- Another member is added when its key is new. -/
theorem firsts_append_singleton (l : List α) (a : α) :
    firsts key (l ++ [a]) = if key a ∈ l.map key then firsts key l else firsts key l ++ [a] := by
  have hold : (l.zipIdx.filter fun p => key p.1 ∉ ((l ++ [a]).take p.2).map key) =
      l.zipIdx.filter fun p => key p.1 ∉ (l.take p.2).map key := by
    refine List.filter_congr fun p hp => ?_
    have hlt : p.2 < 0 + l.length := List.snd_lt_add_of_mem_zipIdx hp
    rw [List.take_append_of_le_length (by omega)]
  unfold firsts
  rw [List.zipIdx_append, List.filter_append, hold, List.map_append]
  by_cases ha : key a ∈ l.map key
  · simp only [List.mem_map] at ha
    simp [ha]
  · simp only [List.mem_map] at ha
    simp [ha]

theorem mem_map_firsts {l : List α} {k : κ} : k ∈ (firsts key l).map key ↔ k ∈ l.map key := by
  induction l using List.reverseRecOn with
  | nil => rfl
  | append_singleton l a ih =>
    rw [firsts_append_singleton]
    split
    · rename_i ha
      rw [ih, List.map_append, List.mem_append]
      constructor
      · exact .inl
      · rintro (hk | hk)
        · exact hk
        · obtain rfl : k = key a := by simpa using hk
          exact ha
    · rw [List.map_append, List.map_append, List.mem_append, List.mem_append, ih]

theorem nodup_map_firsts (l : List α) : ((firsts key l).map key).Nodup := by
  induction l using List.reverseRecOn with
  | nil => exact .nil
  | append_singleton l a ih =>
    rw [firsts_append_singleton]
    split
    · exact ih
    · rename_i ha
      rw [List.map_append, List.nodup_append]
      refine ⟨ih, by simp, ?_⟩
      rintro k hk k' hk' rfl
      obtain rfl : k = key a := by simpa using hk'
      exact ha ((mem_map_firsts key).mp hk)

/-- There are as many as there are keys. -/
theorem length_firsts (l : List α) : (firsts key l).length = (l.map key).toFinset.card := by
  have hkeys : (l.map key).toFinset = ((firsts key l).map key).toFinset := by
    ext k
    rw [List.mem_toFinset, List.mem_toFinset, mem_map_firsts]
  rw [hkeys, List.toFinset_card_of_nodup (nodup_map_firsts key l), List.length_map]

/-- Each is the first member with its key. -/
theorem exists_split_of_mem_firsts {l : List α} {a : α} (ha : a ∈ firsts key l) :
    ∃ before after, l = before ++ a :: after ∧ key a ∉ before.map key := by
  induction l using List.reverseRecOn with
  | nil => simp at ha
  | append_singleton l b ih =>
    rw [firsts_append_singleton] at ha
    split at ha
    · obtain ⟨before, after, rfl, hnew⟩ := ih ha
      exact ⟨before, after ++ [b], by simp, hnew⟩
    · rename_i hb
      rw [List.mem_append, List.mem_singleton] at ha
      rcases ha with ha | rfl
      · obtain ⟨before, after, rfl, hnew⟩ := ih ha
        exact ⟨before, after ++ [b], by simp, hnew⟩
      · exact ⟨l, [], rfl, hb⟩

example : firsts (· % 10) [3, 14, 13, 5, 24] = [3, 14, 5] := by decide

end Kbd.Lib
