import Mathlib.Data.List.Perm.Subperm
import Winnow.Proofs.Scan.Readings

/-!
# What a verdict says

A scan credits only numbers that it has read, and one that was not settled has credited
all of them and met none that is rejected. So where the accepted numbers are those of
the first so many patterns, counting the credited ones tells whether all were read. A
scan that stops because the count is reached stops with the same answer.
-/

namespace Winnow

namespace PatternId

theorem toInt_of_accept {n : Nat} (h : n < 2 ^ 31) : (of .accept n).raw.toInt = n :=
  Int32.toInt_ofNat_of_lt h

theorem toInt_of_reject {n : Nat} (h : n < 2 ^ 31) : (of .reject n).raw.toInt = -n := by
  have hn := Int32.toInt_ofNat_of_lt h
  change (-Int32.ofNat n).toInt = -n
  rw [Int32.toInt_neg, hn]
  exact Int.bmod_eq_of_le (by omega) (by omega)

theorem isReject_iff {i : PatternId} : i.isReject = true ↔ i.raw.toInt < 0 := by
  simp [isReject, Int32.lt_iff_toInt_lt]

theorem isReject_of_accept {n : Nat} (h : n < 2 ^ 31) : (of .accept n).isReject = false := by
  rw [Bool.eq_false_iff, Ne, isReject_iff, toInt_of_accept h]
  omega

theorem isReject_of_reject {n : Nat} (h0 : 0 < n) (h : n < 2 ^ 31) :
    (of .reject n).isReject = true := by
  rw [isReject_iff, toInt_of_reject h]
  omega

theorem of_inj {p q : Polarity} {m n : Nat} (hm0 : 0 < m) (hm : m < 2 ^ 31) (hn0 : 0 < n)
    (hn : n < 2 ^ 31) (h : of p m = of q n) : p = q ∧ m = n := by
  have hi := congrArg (fun i : PatternId => i.raw.toInt) h
  cases p <;> cases q <;>
    simp only [toInt_of_accept hm, toInt_of_reject hm, toInt_of_accept hn, toInt_of_reject hn] at hi
  · exact ⟨rfl, by omega⟩
  · omega
  · omega
  · exact ⟨rfl, by omega⟩

end PatternId

namespace Verdict

variable {n : Nat} {stop : Bool} {v v' : Verdict} {r : Verdict × Bool} {P Q : PatternId → Prop}

/-- What may come of a collection of numbers, and what has if it did not settle the scan. -/
structure Gathers (n : Nat) (stop : Bool) (v : Verdict) (P : PatternId → Prop)
    (r : Verdict × Bool) : Prop where
  keeps : ∀ x ∈ v.accepted, x ∈ r.1.accepted
  accepted_of : ∀ x ∈ r.1.accepted, x ∈ v.accepted ∨ P x ∧ x.isReject = false
  rejected_of : ∀ x ∈ r.1.rejected, x ∈ v.rejected ∨ P x ∧ x.isReject = true
  unsettled : r.2 = false → ∀ x, P x → x.isReject = false ∧ x ∈ r.1.accepted
  settled : r.2 = true → r.1.rejected ≠ ∅ ∨ stop = true ∧ r.1.accepted.size = n

namespace Gathers

theorem of_none (h : ∀ x, ¬P x) : Gathers n stop v P (v, false) where
  keeps _ hx := hx
  accepted_of _ hx := Or.inl hx
  rejected_of _ hx := Or.inl hx
  unsettled _ x hx := absurd hx (h x)
  settled hs := Bool.noConfusion hs

theorem congr (h : Gathers n stop v P r) (hPQ : ∀ x, P x ↔ Q x) : Gathers n stop v Q r := by
  have he : P = Q := funext fun x => propext (hPQ x)
  exact he ▸ h

theorem trans (h : Gathers n stop v P (v', false)) (h' : Gathers n stop v' Q r) :
    Gathers n stop v (fun x => P x ∨ Q x) r where
  keeps x hx := h'.keeps x (h.keeps x hx)
  accepted_of x hx := by
    rcases h'.accepted_of x hx with hx | ⟨hq, hr⟩
    · exact (h.accepted_of x hx).imp_right fun hp => ⟨Or.inl hp.1, hp.2⟩
    · exact Or.inr ⟨Or.inr hq, hr⟩
  rejected_of x hx := by
    rcases h'.rejected_of x hx with hx | ⟨hq, hr⟩
    · exact (h.rejected_of x hx).imp_right fun hp => ⟨Or.inl hp.1, hp.2⟩
    · exact Or.inr ⟨Or.inr hq, hr⟩
  unsettled hs x hx := by
    rcases hx with hp | hq
    · obtain ⟨hr, ha⟩ := h.unsettled rfl x hp
      exact ⟨hr, h'.keeps x ha⟩
    · exact h'.unsettled hs x hq
  settled := h'.settled

theorem accepted_of_empty (h : Gathers n stop .empty P r) {x : PatternId}
    (hx : x ∈ r.1.accepted) : P x ∧ x.isReject = false :=
  (h.accepted_of x hx).resolve_left (OrdSet.not_mem_empty x)

theorem rejected_eq_empty (h : Gathers n stop .empty P r) (hP : ∀ x, P x → x.isReject = false) :
    r.1.rejected = ∅ := by
  refine OrdSet.eq_of_mem_iff fun x => iff_of_false (fun hx => ?_) (OrdSet.not_mem_empty x)
  obtain ⟨hp, hr⟩ := (h.rejected_of x hx).resolve_left (OrdSet.not_mem_empty x)
  rw [hP x hp] at hr
  cases hr

theorem of_settled (h : Gathers n stop v P (v', true)) :
    Gathers n stop v (fun x => P x ∨ Q x) (v', true) where
  keeps := h.keeps
  accepted_of x hx := (h.accepted_of x hx).imp_right fun hp => ⟨Or.inl hp.1, hp.2⟩
  rejected_of x hx := (h.rejected_of x hx).imp_right fun hp => ⟨Or.inl hp.1, hp.2⟩
  unsettled hs := Bool.noConfusion hs
  settled := h.settled

end Gathers

theorem gathers_credit (n : Nat) (stop : Bool) (v : Verdict) (ids : List PatternId) :
    Gathers n stop v (· ∈ ids) (v.credit ids) := by
  induction ids generalizing v with
  | nil => exact .of_none (by simp)
  | cons id ids ih =>
    simp only [credit]
    split
    · rename_i hr
      refine ⟨fun x hx => hx, fun x hx => Or.inl hx, fun x hx => ?_, nofun, fun _ => Or.inl ?_⟩
      · rcases OrdSet.mem_insert.1 hx with rfl | hx
        · exact Or.inr ⟨List.mem_cons_self, hr⟩
        · exact Or.inl hx
      · intro he
        have hid : id ∈ v.rejected.insert id := OrdSet.mem_insert.2 (Or.inl rfl)
        exact OrdSet.not_mem_empty id (he ▸ hid)
    · rename_i hr
      rw [Bool.not_eq_true] at hr
      have hone : Gathers n stop v (· = id) ({ v with accepted := v.accepted.insert id }, false) := by
        refine ⟨fun x hx => OrdSet.mem_insert.2 (Or.inr hx), fun x hx => ?_, fun x hx => Or.inl hx,
          fun _ x hx => ?_, nofun⟩
        · rcases OrdSet.mem_insert.1 hx with rfl | hx
          · exact Or.inr ⟨rfl, hr⟩
          · exact Or.inl hx
        · cases hx
          exact ⟨hr, OrdSet.mem_insert.2 (Or.inl rfl)⟩
      exact (hone.trans (ih _)).congr fun x => List.mem_cons.symm

theorem gathers_weigh (n : Nat) (stop : Bool) (v : Verdict) (ids : OrdSet PatternId) :
    Gathers n stop v (· ∈ ids) (v.weigh n stop ids) := by
  simp only [weigh]
  split
  · rename_i he
    rw [OrdSet.isEmpty_iff] at he
    exact .of_none (by simp [he])
  · have h : Gathers n stop v (· ∈ ids) (v.credit ids.toList) := gathers_credit n stop v ids.toList
    rcases hc : v.credit ids.toList with ⟨v', settled⟩
    rw [hc] at h
    cases settled with
    | true => exact h
    | false =>
      refine ⟨h.keeps, h.accepted_of, h.rejected_of, fun _ => h.unsettled rfl, fun hs => ?_⟩
      simp only [Bool.and_eq_true, beq_iff_eq] at hs
      exact Or.inr hs

theorem gathers_weighAll (n : Nat) (stop : Bool) (v : Verdict)
    (xs : List (OrdSet PatternId)) :
    Gathers n stop v (fun x => ∃ ids ∈ xs, x ∈ ids) (v.weighAll n stop xs) := by
  induction xs generalizing v with
  | nil => exact .of_none (by simp)
  | cons ids xs ih =>
    have h := gathers_weigh n stop v ids
    have hcons (x : PatternId) : (x ∈ ids ∨ ∃ ids ∈ xs, x ∈ ids) ↔ ∃ ids' ∈ ids :: xs, x ∈ ids' := by
      simp
    simp only [weighAll]
    rcases hw : v.weigh n stop ids with ⟨v', settled⟩
    rw [hw] at h
    cases settled with
    | true => exact h.of_settled.congr hcons
    | false => exact (h.trans (ih v')).congr hcons

def wanted (n : Nat) : List PatternId := (List.range n).map fun k => .of .accept (k + 1)

theorem mem_wanted {x : PatternId} :
    x ∈ wanted n ↔ ∃ k, 1 ≤ k ∧ k ≤ n ∧ x = .of .accept k := by
  simp only [wanted, List.mem_map, List.mem_range]
  constructor
  · rintro ⟨k, hk, rfl⟩
    exact ⟨k + 1, Nat.succ_pos k, hk, rfl⟩
  · rintro ⟨k, h1, hk, rfl⟩
    exact ⟨k - 1, by omega, by rw [Nat.sub_add_cancel h1]⟩

theorem nodup_wanted (hn : n < 2 ^ 31) : (wanted n).Nodup := by
  refine List.Nodup.map_on (fun i hi j hj he => ?_) List.nodup_range
  rw [List.mem_range] at hi hj
  exact Nat.succ.inj (PatternId.of_inj (by omega) (by omega) (by omega) (by omega) he).2

theorem size_eq_iff_wanted (hn : n < 2 ^ 31) {s : OrdSet PatternId} (hs : ∀ x ∈ s, x ∈ wanted n) :
    s.size = n ↔ ∀ x ∈ wanted n, x ∈ s := by
  have hlength : (wanted n).length = n := by simp [wanted]
  constructor
  · intro he x hx
    have hsub := List.subperm_of_subset s.nodup hs
    exact (hsub.perm_of_length_le (by rw [hlength]; exact Nat.le_of_eq he.symm)).mem_iff.2 hx
  · intro hw
    have hle := (List.subperm_of_subset s.nodup hs).length_le
    have hge := (List.subperm_of_subset (nodup_wanted hn) hw).length_le
    rw [hlength] at hle hge
    exact Nat.le_antisymm hle hge

theorem isReject_of_mem_wanted (hn : n < 2 ^ 31) {id : PatternId} (h : id ∈ wanted n) :
    id.isReject = false := by
  obtain ⟨k, -, hk, rfl⟩ := mem_wanted.1 h
  exact PatternId.isReject_of_accept (Nat.lt_of_le_of_lt hk hn)

theorem Gathers.mem_accepted_iff (h : Gathers n stop .empty P r) (hn : n < 2 ^ 31)
    (hP : ∀ x, P x → x ∈ wanted n) (x : PatternId) : x ∈ r.1.accepted ↔ P x := by
  refine ⟨fun hx => (h.accepted_of_empty hx).1, fun hx => ?_⟩
  cases hs : r.2 with
  | false => exact (h.unsettled hs x hx).2
  | true =>
    rcases h.settled hs with hne | ⟨-, hsize⟩
    · exact absurd (h.rejected_eq_empty fun y hy => isReject_of_mem_wanted hn (hP y hy)) hne
    · have hread : ∀ y ∈ r.1.accepted, y ∈ wanted n := fun y hy => hP y (h.accepted_of_empty hy).1
      exact (size_eq_iff_wanted hn hread).1 hsize x (hP x hx)

/-- Where the accepted numbers are wanted and a scan that may stop rejects nothing, the
verdict says whether nothing is rejected and all that is wanted was read. -/
theorem Gathers.isMatch_iff (h : Gathers n stop .empty P r) (hn : n < 2 ^ 31)
    (wanted_of : ∀ x, P x → x.isReject = false → x ∈ wanted n)
    (stop_of : stop = true → ∀ x, P x → x.isReject = false) :
    r.1.isMatch n = true ↔ (∀ x, P x → x.isReject = false) ∧ ∀ x ∈ wanted n, P x := by
  have hread : ∀ x ∈ r.1.accepted, P x ∧ x.isReject = false := fun x => h.accepted_of_empty
  have hsize := size_eq_iff_wanted hn fun x hx => wanted_of x (hread x hx).1 (hread x hx).2
  simp only [isMatch, Bool.and_eq_true, beq_iff_eq, OrdSet.isEmpty_iff, hsize]
  constructor
  · rintro ⟨hr, ha⟩
    refine ⟨fun x hx => ?_, fun x hx => (hread x (ha x hx)).1⟩
    cases hs : r.2 with
    | false => exact (h.unsettled hs x hx).1
    | true =>
      rcases h.settled hs with he | ⟨hstop, -⟩
      · exact absurd hr he
      · exact stop_of hstop x hx
  · rintro ⟨hnone, hall⟩
    have hwanted : ∀ x, P x → x ∈ wanted n := fun x hx => wanted_of x hx (hnone x hx)
    exact ⟨h.rejected_eq_empty hnone, fun x hx => (h.mem_accepted_iff hn hwanted x).2 (hall x hx)⟩

end Verdict

end Winnow
