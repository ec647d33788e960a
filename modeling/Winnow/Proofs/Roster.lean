import Winnow.Roster

/-!
# Which numbers are given out

A roster gives out a number each time that a pattern is pushed. Each list is numbered from
1 on, so the numbers that a roster has given out are those up to the sizes of its lists.
-/

namespace Winnow.Roster

variable {r : Roster} {id : PatternId}

theorem size_list_push (r : Roster) (p q : Polarity) (text : String) :
    ((r.push q text).list p).size = (r.list p).size + if q = p then 1 else 0 := by
  cases p <;> cases q <;> simp [push, list]

theorem rejectsNothing_iff : r.rejectsNothing = true ↔ r.reject.size = 0 := by
  rw [rejectsNothing, Array.isEmpty_iff_size_eq_zero]

inductive Issued : Roster → PatternId → Prop
  | push (r : Roster) (p : Polarity) (text : String) : Issued (r.push p text) (r.nextId p)
  | later {r : Roster} {id : PatternId} (h : Issued r id) (p : Polarity) (text : String) :
      Issued (r.push p text) id

theorem exists_push_of_size {p : Polarity} {n : Nat} (h : (r.list p).size = n + 1) :
    ∃ (r' : Roster) (text : String), r = r'.push p text ∧ (r'.list p).size = n := by
  obtain ⟨texts, text, ht⟩ := Array.exists_push_of_size_eq_add_one h
  rw [ht, Array.size_push] at h
  obtain ⟨accept, reject⟩ := r
  cases p with
  | accept =>
    obtain rfl : accept = texts.push text := ht
    exact ⟨⟨texts, reject⟩, text, rfl, Nat.succ.inj h⟩
  | reject =>
    obtain rfl : reject = texts.push text := ht
    exact ⟨⟨accept, texts⟩, text, rfl, Nat.succ.inj h⟩

theorem issued_iff :
    r.Issued id ↔ ∃ p k, 0 < k ∧ k ≤ (r.list p).size ∧ id = .of p k := by
  constructor
  · intro h
    induction h with
    | push r p text =>
      refine ⟨p, (r.list p).size + 1, Nat.succ_pos _, Nat.le_of_eq ?_, rfl⟩
      rw [size_list_push, if_pos rfl]
    | later h q text ih =>
      obtain ⟨p, k, h0, hk, hid⟩ := ih
      refine ⟨p, k, h0, ?_, hid⟩
      rw [size_list_push]
      exact Nat.le_add_right_of_le hk
  · rintro ⟨p, k, h0, hk, rfl⟩
    generalize hn : (r.list p).size = n at hk
    induction n generalizing r with
    | zero => omega
    | succ n ih =>
      obtain ⟨r', text, rfl, hsize⟩ := exists_push_of_size hn
      by_cases hlast : k = n + 1
      · rw [hlast, ← hsize]
        exact .push r' p text
      · exact (ih hsize (by omega)).later p text

end Winnow.Roster
