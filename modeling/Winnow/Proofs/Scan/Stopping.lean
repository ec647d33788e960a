import Winnow.Proofs.Roster
import Winnow.Proofs.Scan.Verdicts

/-!
# Stopping early

A scan may stop once it has credited as many numbers as there are accepted patterns, if
nothing is rejected. Where the numbers were given out by the roster, each of those it reads
is then the number of an accepted pattern. So it has credited all of these numbers when it
stops, and the rest of the buffer would add none. With a rejected pattern a scan never stops
for this reason.
-/

namespace Winnow

theorem Roster.Issued.mem_wanted {r : Roster} {id : PatternId} (h : r.Issued id)
    (hr : r.rejectsNothing = true) : id ∈ Verdict.wanted r.accept.size := by
  obtain ⟨p, k, h0, hk, rfl⟩ := issued_iff.1 h
  cases p with
  | accept => exact Verdict.mem_wanted.2 ⟨k, h0, hk, rfl⟩
  | reject =>
    have hsize : (r.list .reject).size = 0 := rejectsNothing_iff.1 hr
    omega

namespace Verdict

variable {n : Nat}

theorem weighAll_eq_of_wanted (hn : n < 2 ^ 31) {xs : List (OrdSet PatternId)}
    (hxs : ∀ ids ∈ xs, ∀ id ∈ ids, id ∈ wanted n) (stop stop' : Bool) :
    (empty.weighAll n stop xs).1 = (empty.weighAll n stop' xs).1 := by
  have hwanted : ∀ id, (∃ ids ∈ xs, id ∈ ids) → id ∈ wanted n := by
    intro id ⟨ids, hids, hid⟩
    exact hxs ids hids id hid
  have hnone : ∀ id, (∃ ids ∈ xs, id ∈ ids) → id.isReject = false := by
    intro id hid
    exact isReject_of_mem_wanted hn (hwanted id hid)
  have h := gathers_weighAll n stop empty xs
  have h' := gathers_weighAll n stop' empty xs
  have haccepted : (empty.weighAll n stop xs).1.accepted = (empty.weighAll n stop' xs).1.accepted := by
    refine OrdSet.eq_of_mem_iff fun id => ?_
    rw [h.mem_accepted_iff hn hwanted, h'.mem_accepted_iff hn hwanted]
  have hrejected : (empty.weighAll n stop xs).1.rejected = (empty.weighAll n stop' xs).1.rejected := by
    rw [h.rejected_eq_empty hnone, h'.rejected_eq_empty hnone]
  exact congrArg₂ Verdict.mk haccepted hrejected

end Verdict

namespace Scan

variable {l : Layout} {caseless : Bool} {words : List (List UInt8 × PatternId)} {roster : Roster}

theorem issued_of_mem_readings (hids : ∀ w ∈ words, roster.Issued w.2) (buffer : List UInt8) :
    ∀ ids ∈ ((Outline.empty caseless).insertEach l words).readings buffer, ∀ id ∈ ids,
      roster.Issued id := by
  intro ids hmem id hid
  obtain ⟨p, -, -, hmark⟩ := Outline.mem_readings.1 ⟨ids, hmem, hid⟩
  rcases Outline.exists_word_of_mark hmark with hnone | ⟨w, hw, -⟩
  · exact absurd hnone List.not_mem_nil
  · exact hids (w, id) hw

/-- A scan that may stop comes to the verdict of the one that always reads on, if every number
that was inserted was given out by the roster: the two accept and reject the same numbers, and
so they also agree on whether the buffer is a match. -/
theorem run_eq_exhaustive_run (haccept : roster.accept.size < 2 ^ 31)
    (hids : ∀ w ∈ words, roster.Issued w.2) (buffer : List UInt8) :
    (of ((Automaton.empty caseless : Automaton l).insertEach words) roster).run buffer =
      (of ((Automaton.empty caseless : Automaton l).insertEach words) roster).exhaustive.run
        buffer := by
  rw [run_eq rfl, run_eq rfl]
  cases hr : roster.rejectsNothing with
  | false =>
    -- what is compared is the same, for neither of the two may stop
    simp only [of, exhaustive, hr]
  | true =>
    refine Verdict.weighAll_eq_of_wanted haccept (fun ids hmem id hid => ?_) _ _
    exact (issued_of_mem_readings hids buffer ids hmem id hid).mem_wanted hr

theorem run_eq_exhaustive_run_of_refused_word :
    let roster := (Roster.empty.push .accept "ab").push .accept "b"
    let words := [([0x61, 0x62], PatternId.of .accept 1),
      (List.replicate 255 0x63, .of .accept 2), ([0x62], .of .accept 2)]
    roster.accept.size < 2 ^ 31 ∧ (∀ w ∈ words, roster.Issued w.2) ∧ ∀ buffer,
      (of ((Automaton.empty true : Automaton .nibble).insertEach words) roster).run buffer =
        (of ((Automaton.empty true : Automaton .nibble).insertEach words) roster).exhaustive.run
          buffer := by
  intro roster words
  have hsize : roster.accept.size < 2 ^ 31 := by decide
  have hfirst : roster.Issued (.of .accept 1) := (Roster.Issued.push .empty .accept "ab").later _ _
  have hsecond : roster.Issued (.of .accept 2) := .push _ .accept "b"
  have hids : ∀ w ∈ words, roster.Issued w.2 :=
    List.forall_mem_cons.2 ⟨hfirst, List.forall_mem_cons.2 ⟨hsecond,
      List.forall_mem_singleton.2 hsecond⟩⟩
  exact ⟨hsize, hids, run_eq_exhaustive_run hsize hids⟩

end Scan

end Winnow
