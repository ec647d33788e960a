import Mathlib
import Winnow.Proofs.Tree.Resolve
import Winnow.Walk

/-!
# What a walk lists

A walk lists the regular files at or below its root and the files outside to which links
below the root lead, and it reports the links that lead nowhere. A file in the root is
listed once. A file outside is listed once for each link that leads to it: what has been
listed is not remembered.
-/

namespace Winnow

namespace Tree

variable {t : Tree}

theorem WellFormed.encard_places (h : t.WellFormed) (counts : Place × Entry → Bool) :
    {p | ∃ e, (p, e) ∈ t.entries ∧ counts (p, e) = true}.encard = t.entries.countP counts := by
  have hnodup : ((t.entries.filter counts).map Prod.fst).Nodup :=
    h.nodup.sublist (List.filter_sublist.map Prod.fst)
  have hset : {p | ∃ e, (p, e) ∈ t.entries ∧ counts (p, e) = true} =
      ((t.entries.filter counts).map Prod.fst).toFinset := by
    ext p
    simp
  rw [hset, Set.encard_coe_eq_coe_finsetCard, List.toFinset_card_of_nodup hnodup,
    List.length_map, List.countP_eq_length_filter]

end Tree

namespace Walk

variable {t : Tree} {allows : String → Bool} {root p q : Place} {e : Entry}

structure LinkBelow (t : Tree) (root p : Place) : Prop where
  below : root <+: p
  link : ∃ target, t.get? p = some (.link target)

theorem LinkBelow.exists_mem (h : LinkBelow t root p) :
    ∃ target, (p, .link target) ∈ t.entries := by
  obtain ⟨target, htarget⟩ := h.link
  exact ⟨target, Tree.mem_of_get?_of_ne_dir htarget nofun⟩

/-- A link below the root through which a regular file is reached. -/
structure LinksTo (t : Tree) (root p q : Place) : Prop extends LinkBelow t root p where
  file : ∃ data, t.resolve [] p.text = .ok (q, .file data)

/-- A link below the root that leads nowhere, and why. -/
structure Broken (t : Tree) (root p : Place) (f : Fault) : Prop extends LinkBelow t root p where
  fault : t.resolve [] p.text = .error f

/-- The files that a walk has to list, at the places where they really are. -/
inductive Wanted (t : Tree) (root : Place) : Place → Prop
  | inside {p q : Place} {data : List UInt8} (below : root <+: p)
      (file : t.get? p = some (.file data))
      (real : t.resolve [] p.text = .ok (q, .file data)) : Wanted t root q
  | outside {p q : Place} (link : LinksTo t root p q) (out : ¬root <+: q) : Wanted t root q

def paths (listed : List (Except Error Place)) : List Place := listed.filterMap Except.toOption

theorem mem_paths {listed : List (Except Error Place)} : q ∈ paths listed ↔ .ok q ∈ listed := by
  rw [paths, List.mem_filterMap]
  constructor
  · intro h
    obtain ⟨x, hx, hq⟩ := h
    cases x with
    | error e => cases hq
    | ok p =>
      cases hq
      exact hx
  · intro h
    exact ⟨.ok q, h, rfl⟩

/-! One entry -/

theorem ofLink_eq_ok_iff : ofLink t root p = some (.ok q) ↔
    (∃ data, t.resolve [] p.text = .ok (q, .file data)) ∧ ¬root <+: q := by
  rw [ofLink]
  cases hresolve : t.resolve [] p.text with
  | error f => simp
  | ok reached =>
    obtain ⟨r, e⟩ := reached
    cases e with
    | file data =>
      by_cases hr : root <+: r
      · have hno : ¬(r = q ∧ ¬root <+: q) := fun h => h.2 (h.1 ▸ hr)
        simpa [hr] using hno
      · simp only [List.isPrefixOf_iff_prefix, hr, ↓reduceIte, Option.some.injEq, Except.ok.injEq,
          Prod.mk.injEq, Entry.file.injEq, exists_and_left, exists_eq', and_true]
        exact ⟨fun h => ⟨h, h ▸ hr⟩, And.left⟩
    | dir => simp
    | link target => simp

theorem ofLink_eq_error_iff {err : Error} : ofLink t root p = some (.error err) ↔
    ∃ f, t.resolve [] p.text = .error f ∧ err = .file p.text f := by
  rw [ofLink]
  cases hresolve : t.resolve [] p.text with
  | error f => simp [eq_comm]
  | ok reached =>
    obtain ⟨r, e⟩ := reached
    cases e with
    | file data =>
      by_cases hr : root.isPrefixOf r = true <;> simp [hr]
    | dir => simp
    | link target => simp

theorem ofEntry_eq_some_iff {x : Except Error Place} : ofEntry t root (p, e) = some x ↔
    (∃ data, e = .file data ∧ canonical t [] p.text = x) ∨
      ∃ target, e = .link target ∧ ofLink t root p = some x := by
  cases e <;> simp [ofEntry]

theorem canonical_of_file (h : t.WellFormed) {data : List UInt8}
    (hfile : t.get? p = some (.file data)) : canonical t [] p.text = .ok p := by
  rw [canonical, h.resolve_text hfile nofun]

/-- What the entry at a place below the root adds to a listing if it is allowed. -/
def Gives (t : Tree) (root p : Place) (x : Except Error Place) : Prop :=
  ∃ e, (p, e) ∈ t.entries ∧ root <+: p ∧ ofEntry t root (p, e) = some x

theorem gives_ok_iff (h : t.WellFormed) : Gives t root p (.ok q) ↔
    (root <+: p ∧ p = q ∧ ∃ data, t.get? p = some (.file data)) ∨
      (LinksTo t root p q ∧ ¬root <+: q) := by
  constructor
  · intro hgives
    obtain ⟨e, hmem, hbelow, hentry⟩ := hgives
    have hget := h.get?_of_mem hmem
    rcases ofEntry_eq_some_iff.1 hentry with ⟨data, rfl, hreal⟩ | ⟨target, rfl, hlink⟩
    · rw [canonical_of_file h hget] at hreal
      exact .inl ⟨hbelow, Except.ok.inj hreal, data, hget⟩
    · obtain ⟨hfile, hout⟩ := ofLink_eq_ok_iff.1 hlink
      exact .inr ⟨⟨⟨hbelow, target, hget⟩, hfile⟩, hout⟩
  · intro hplace
    rcases hplace with ⟨hbelow, rfl, data, hfile⟩ | ⟨hlink, hout⟩
    · exact ⟨_, Tree.mem_of_get?_of_ne_dir hfile nofun, hbelow,
        ofEntry_eq_some_iff.2 (.inl ⟨data, rfl, canonical_of_file h hfile⟩)⟩
    · obtain ⟨target, hmem⟩ := hlink.exists_mem
      have hentry := ofLink_eq_ok_iff.2 ⟨hlink.file, hout⟩
      exact ⟨_, hmem, hlink.below, ofEntry_eq_some_iff.2 (.inr ⟨target, rfl, hentry⟩)⟩

theorem gives_error_iff (h : t.WellFormed) {err : Error} : Gives t root p (.error err) ↔
    ∃ f, Broken t root p f ∧ err = .file p.text f := by
  constructor
  · intro hgives
    obtain ⟨e, hmem, hbelow, hentry⟩ := hgives
    have hget := h.get?_of_mem hmem
    rcases ofEntry_eq_some_iff.1 hentry with ⟨data, rfl, hreal⟩ | ⟨target, rfl, hlink⟩
    · rw [canonical_of_file h hget] at hreal
      cases hreal
    · obtain ⟨f, hf, rfl⟩ := ofLink_eq_error_iff.1 hlink
      exact ⟨f, ⟨⟨hbelow, target, hget⟩, hf⟩, rfl⟩
  · intro hbroken
    obtain ⟨f, hbroken, rfl⟩ := hbroken
    obtain ⟨target, hmem⟩ := hbroken.exists_mem
    have hlink : ofLink t root p = some (.error (.file p.text f)) :=
      ofLink_eq_error_iff.2 ⟨f, hbroken.fault, rfl⟩
    exact ⟨_, hmem, hbroken.below, ofEntry_eq_some_iff.2 (.inr ⟨target, rfl, hlink⟩)⟩

/-! All entries -/

theorem mem_below {x : Except Error Place} : x ∈ below t allows root ↔
    ∃ p, Gives t root p x ∧ passes allows x = true := by
  simp only [below, List.mem_filter, List.mem_filterMap, Prod.exists, List.isPrefixOf_iff_prefix]
  constructor
  · intro h
    obtain ⟨⟨p, e, ⟨hmem, hbelow⟩, hx⟩, hpasses⟩ := h
    exact ⟨p, ⟨e, hmem, hbelow, hx⟩, hpasses⟩
  · intro h
    obtain ⟨p, ⟨e, hmem, hbelow, hx⟩, hpasses⟩ := h
    exact ⟨⟨p, e, ⟨hmem, hbelow⟩, hx⟩, hpasses⟩

theorem countP_below (h : t.WellFormed) (allows : String → Bool) (root : Place)
    (counts : Except Error Place → Bool) :
    ((below t allows root).countP counts : ℕ∞) =
      {p | ∃ x, Gives t root p x ∧ passes allows x = true ∧ counts x = true}.encard := by
  rw [below, List.countP_filter, List.countP_filterMap, List.countP_filter, ← h.encard_places]
  congr 1
  ext p
  constructor
  · intro hp
    obtain ⟨e, hmem, hcounts⟩ := hp
    rw [Bool.and_eq_true, List.isPrefixOf_iff_prefix] at hcounts
    obtain ⟨hcounts, hbelow⟩ := hcounts
    cases hx : ofEntry t root (p, e) with
    | none =>
      rw [hx] at hcounts
      cases hcounts
    | some x =>
      rw [hx] at hcounts
      obtain ⟨hc, hpasses⟩ := Bool.and_eq_true_iff.1 hcounts
      exact ⟨x, ⟨e, hmem, hbelow, hx⟩, hpasses, hc⟩
  · intro hp
    obtain ⟨x, ⟨e, hmem, hbelow, hx⟩, hpasses, hc⟩ := hp
    refine ⟨e, hmem, ?_⟩
    rw [Bool.and_eq_true, List.isPrefixOf_iff_prefix, hx]
    exact ⟨Bool.and_eq_true_iff.2 ⟨hc, hpasses⟩, hbelow⟩

/-! Files -/

theorem mem_paths_below (h : t.WellFormed) :
    q ∈ paths (below t allows root) ↔ Wanted t root q ∧ allows q.text = true := by
  rw [mem_paths, mem_below]
  constructor
  · intro hq
    obtain ⟨p, hgives, hallows⟩ := hq
    refine ⟨?_, hallows⟩
    rcases (gives_ok_iff h).1 hgives with ⟨hbelow, rfl, data, hfile⟩ | ⟨hlink, hout⟩
    · exact .inside hbelow hfile (h.resolve_text hfile nofun)
    · exact .outside hlink hout
  · intro hq
    obtain ⟨hwanted, hallows⟩ := hq
    cases hwanted with
    | @inside p _ data hbelow hfile hreal =>
      rw [h.resolve_text hfile nofun] at hreal
      cases hreal
      exact ⟨q, (gives_ok_iff h).2 (.inl ⟨hbelow, rfl, data, hfile⟩), hallows⟩
    | @outside p _ hlink hout =>
      exact ⟨p, (gives_ok_iff h).2 (.inr ⟨hlink, hout⟩), hallows⟩

/-- No file that a link leads to is lost: one that is passed over is in the root itself. -/
theorem LinksTo.wanted (h : t.WellFormed) (hlink : LinksTo t root p q) : Wanted t root q := by
  by_cases hq : root <+: q
  · obtain ⟨data, hdata⟩ := hlink.file
    obtain ⟨hfile, -⟩ := h.get?_of_resolve hdata
    exact .inside hq hfile (h.resolve_text hfile nofun)
  · exact .outside hlink hq

theorem Wanted.inside_or_linked (h : t.WellFormed) (hq : Wanted t root q) :
    root <+: q ∨ ∃ p, LinksTo t root p q := by
  cases hq with
  | inside hbelow hfile hreal =>
    rw [h.resolve_text hfile nofun] at hreal
    cases hreal
    exact .inl hbelow
  | outside hlink => exact .inr ⟨_, hlink⟩

/-! Faults -/

theorem error_mem_below (h : t.WellFormed) {err : Error} : .error err ∈ below t allows root ↔
    ∃ (p : Place) (f : Fault), Broken t root p f ∧ err = .file p.text f := by
  rw [mem_below]
  constructor
  · intro herr
    obtain ⟨p, hgives, -⟩ := herr
    exact ⟨p, (gives_error_iff h).1 hgives⟩
  · intro herr
    obtain ⟨p, hbroken⟩ := herr
    exact ⟨p, (gives_error_iff h).2 hbroken, rfl⟩

theorem countP_faults (h : t.WellFormed) (allows : String → Bool) (root : Place) :
    ((below t allows root).countP (!·.isOk) : ℕ∞) = {p | ∃ f, Broken t root p f}.encard := by
  rw [countP_below h]
  congr 1
  ext p
  constructor
  · intro hp
    obtain ⟨x, hgives, -, hfault⟩ := hp
    cases x with
    | ok q => cases hfault
    | error err =>
      obtain ⟨f, hbroken, -⟩ := (gives_error_iff h).1 hgives
      exact ⟨f, hbroken⟩
  · intro hp
    obtain ⟨f, hbroken⟩ := hp
    exact ⟨_, (gives_error_iff h).2 ⟨f, hbroken, rfl⟩, rfl, rfl⟩

/-- The paths of a walk are the places of the regular files at or below its root and of
those outside that links below the root lead to, as long as they are allowed. What a link
leads to is not lost if it is in the root. What is in a linked directory is listed on
account of other links only. There is one fault for each link that leads nowhere, and none
for a regular file, since in a well-formed tree its own path leads to it. -/
theorem files_complete (h : t.WellFormed) {cwd r : Place} {path : String} {e : Entry}
    (allows : String → Bool) (hroot : t.resolve cwd path = .ok (r, e)) :
    ∃ listed, files t allows cwd path = .ok listed ∧
      (∀ q : Place, q ∈ paths listed ↔ Wanted t r q ∧ allows q.text = true) ∧
      (∀ p q : Place, LinksTo t r p q → allows q.text = true → q ∈ paths listed) ∧
      (∀ p d : Place, LinkBelow t r p → t.resolve [] p.text = .ok (d, .dir) →
        ∀ q ∈ paths listed, d <+: q → r <+: q ∨ ∃ p', p' ≠ p ∧ LinksTo t r p' q) ∧
      (listed.countP (!·.isOk) : ℕ∞) = {p | ∃ f, Broken t r p f}.encard ∧
      ∀ err, .error err ∈ listed ↔
        ∃ (p : Place) (f : Fault), Broken t r p f ∧ err = .file p.text f := by
  have hfiles : files t allows cwd path = .ok (below t allows r) := by
    rw [files, canonical, hroot]
    rfl
  refine ⟨below t allows r, hfiles, fun q => mem_paths_below h, ?_, ?_, countP_faults h allows r,
    fun err => error_mem_below h⟩
  · intro p q hlink hallows
    exact (mem_paths_below h).2 ⟨hlink.wanted h, hallows⟩
  · intro p d _ hdir q hq _
    obtain ⟨hwanted, -⟩ := (mem_paths_below h).1 hq
    refine (hwanted.inside_or_linked h).imp_right fun ⟨p', hlink⟩ => ⟨p', ?_, hlink⟩
    intro hp
    obtain ⟨data, hdata⟩ := hlink.file
    rw [hp, hdir] at hdata
    cases hdata

theorem files_complete_of_each_kind_of_link :
    let t : Tree := ⟨[(["d"], .dir), (["d", "a"], .link "/o"), (["d", "b"], .link ".h"),
      (["d", "c"], .link ".h/x"), (["d", ".h"], .file [1]), (["d", "e"], .link "../t"),
      (["t"], .file []), (["o"], .dir), (["o", "u"], .file [])]⟩
    t.WellFormed ∧ t.resolve [] "/d/." = .ok (["d"], .dir) ∧
      ∃ listed, files t (fun _ => true) [] "/d/." = .ok listed ∧ ["d", ".h"] ∈ paths listed ∧
        ["t"] ∈ paths listed ∧ .error (.file "/d/c" .notDirectory) ∈ listed := by
  intro t
  have hwell : t.WellFormed := by decide
  have hroot : t.resolve [] "/d/." = .ok (["d"], .dir) := by cbv
  have hin : LinksTo t ["d"] ["d", "b"] ["d", ".h"] :=
    ⟨⟨by decide, ".h", by decide⟩, [1], by cbv⟩
  have hout : LinksTo t ["d"] ["d", "e"] ["t"] :=
    ⟨⟨by decide, "../t", by decide⟩, [], by cbv⟩
  have hbroken : Broken t ["d"] ["d", "c"] .notDirectory :=
    ⟨⟨by decide, ".h/x", by decide⟩, by cbv⟩
  have htext : Place.text ["d", "c"] = "/d/c" := by decide
  obtain ⟨listed, hfiles, -, hlinks, -, -, hfaults⟩ := files_complete hwell (fun _ => true) hroot
  have hfault := (hfaults _).2 ⟨_, _, hbroken, rfl⟩
  rw [htext] at hfault
  exact ⟨hwell, hroot, listed, hfiles, hlinks _ _ hin rfl,
    hlinks _ _ hout rfl, hfault⟩

/-! Repetitions -/

theorem count_paths (h : t.WellFormed) (allows : String → Bool) (root q : Place) :
    ((paths (below t allows root)).count q : ℕ∞) =
      {p | Gives t root p (.ok q) ∧ allows q.text = true}.encard := by
  rw [paths, List.count_filterMap, countP_below h]
  congr 1
  ext p
  constructor
  · intro hp
    obtain ⟨x, hgives, hallows, hx⟩ := hp
    cases x with
    | error err => cases hx
    | ok q' =>
      obtain rfl : q' = q := Option.some.inj (beq_iff_eq.1 hx)
      exact ⟨hgives, hallows⟩
  · intro hp
    obtain ⟨hgives, hallows⟩ := hp
    exact ⟨_, hgives, hallows, beq_self_eq_true _⟩

theorem count_inside (h : t.WellFormed) (allows : String → Bool) (hq : root <+: q) :
    (paths (below t allows root)).count q ≤ 1 := by
  have hcount := count_paths h allows root q
  have hone : ((paths (below t allows root)).count q : ℕ∞) ≤ 1 := by
    rw [hcount, Set.encard_le_one_iff_subsingleton]
    have honly (p : Place) (hp : Gives t root p (.ok q) ∧ allows q.text = true) : p = q := by
      rcases (gives_ok_iff h).1 hp.1 with ⟨-, hpq, -⟩ | ⟨-, hout⟩
      · exact hpq
      · exact absurd hq hout
    intro p hp p' hp'
    exact (honly p hp).trans (honly p' hp').symm
  exact_mod_cast hone

theorem count_outside (h : t.WellFormed) (hq : ¬root <+: q)
    (hallows : allows q.text = true) :
    ((paths (below t allows root)).count q : ℕ∞) = {p | LinksTo t root p q}.encard := by
  rw [count_paths h]
  congr 1
  ext p
  constructor
  · intro hp
    rcases (gives_ok_iff h).1 hp.1 with ⟨hbelow, rfl, -⟩ | ⟨hlink, -⟩
    · exact absurd hbelow hq
    · exact hlink
  · intro hlink
    exact ⟨(gives_ok_iff h).2 (.inr ⟨hlink, hq⟩), hallows⟩

/-- A file in the root is listed at most once, and a file outside once for each link below
the root that leads to it. So nothing is listed twice exactly if no two links lead to one
file outside. -/
theorem files_nodup_iff (h : t.WellFormed) {cwd r : Place} {path : String} {e : Entry}
    (allows : String → Bool) (hroot : t.resolve cwd path = .ok (r, e)) :
    ∃ listed, files t allows cwd path = .ok listed ∧
      (∀ q : Place, r <+: q → (paths listed).count q ≤ 1) ∧
      (∀ q : Place, ¬r <+: q → allows q.text = true →
        ((paths listed).count q : ℕ∞) = {p | LinksTo t r p q}.encard) ∧
      ((paths listed).Nodup ↔ ∀ q : Place, ¬r <+: q → allows q.text = true →
        {p | LinksTo t r p q}.Subsingleton) := by
  have hfiles : files t allows cwd path = .ok (below t allows r) := by
    rw [files, canonical, hroot]
    rfl
  refine ⟨below t allows r, hfiles, fun q hq => count_inside h allows hq,
    fun q hq hallows => count_outside h hq hallows, ?_⟩
  rw [List.nodup_iff_count_le_one]
  constructor
  · intro honce q hq hallows
    rw [← Set.encard_le_one_iff_subsingleton, ← count_outside h hq hallows]
    exact_mod_cast honce q
  · intro hlinks q
    by_cases hq : r <+: q
    · exact count_inside h allows hq
    · by_cases hmem : q ∈ paths (below t allows r)
      · obtain ⟨-, hallows⟩ := (mem_paths_below h).1 hmem
        have hone := count_outside h hq hallows
        have hle := Set.encard_le_one_iff_subsingleton.2 (hlinks q hq hallows)
        rw [← hone] at hle
        exact_mod_cast hle
      · rw [List.count_eq_zero_of_not_mem hmem]
        exact Nat.zero_le 1

theorem files_nodup_iff_of_one_link_out :
    let t : Tree := ⟨[(["d"], .dir), (["d", "f"], .file []), (["d", "a"], .link "f"),
      (["d", "b"], .link "a"), (["d", "c"], .link "../o"), (["o"], .file [])]⟩
    t.WellFormed ∧ t.resolve [] "/d" = .ok (["d"], .dir) ∧
      ∃ listed, files t (fun _ => true) [] "/d" = .ok listed ∧
        (paths listed).count ["d", "f"] ≤ 1 ∧ (paths listed).count ["o"] = 1 ∧
        (paths listed).Nodup := by
  intro t
  have hwell : t.WellFormed := by decide
  have hroot : t.resolve [] "/d" = .ok (["d"], .dir) := by cbv
  have hout : LinksTo t ["d"] ["d", "c"] ["o"] :=
    ⟨⟨by decide, "../o", by decide⟩, [], by cbv⟩
  have hfirst : t.resolve [] (Place.text ["d", "a"]) = .ok (["d", "f"], .file []) := by cbv
  have hsecond : t.resolve [] (Place.text ["d", "b"]) = .ok (["d", "f"], .file []) := by cbv
  have honly (p q : Place) (hlink : LinksTo t ["d"] p q) (hq : ¬["d"] <+: q) : p = ["d", "c"] := by
    obtain ⟨target, hmem⟩ := hlink.exists_mem
    obtain ⟨data, hdata⟩ := hlink.file
    simp only [t, List.mem_cons, Prod.mk.injEq, reduceCtorEq, and_false, false_or, or_false,
      Entry.link.injEq, List.not_mem_nil] at hmem
    rcases hmem with ⟨rfl, -⟩ | ⟨rfl, -⟩ | ⟨rfl, -⟩
    · rw [hfirst] at hdata
      cases hdata
      exact absurd (by decide) hq
    · rw [hsecond] at hdata
      cases hdata
      exact absurd (by decide) hq
    · rfl
  obtain ⟨listed, hfiles, honce, hcount, hnodup⟩ := files_nodup_iff hwell (fun _ => true) hroot
  have hlinks : {p | LinksTo t ["d"] p ["o"]} = {["d", "c"]} :=
    Set.Subset.antisymm (fun p hp => honly p _ hp (by decide)) (Set.singleton_subset_iff.2 hout)
  have hone := hcount ["o"] (by decide) rfl
  rw [hlinks, Set.encard_singleton] at hone
  refine ⟨hwell, hroot, listed, hfiles, honce _ (by decide), by exact_mod_cast hone, ?_⟩
  exact hnodup.2 fun q hq _ p hp p' hp' => (honly p q hp hq).trans (honly p' q hp' hq).symm

theorem files_repeat_of_two_links :
    let t : Tree := ⟨[(["d"], .dir), (["d", "a"], .link "/o"), (["d", "b"], .link "/o"),
      (["o"], .file [])]⟩
    t.WellFormed ∧ t.resolve [] "/d" = .ok (["d"], .dir) ∧
      files t (fun _ => true) [] "/d" = .ok [.ok ["o"], .ok ["o"]] ∧
      ¬(paths [.ok ["o"], .ok ["o"]]).Nodup := by
  intro t
  exact ⟨by decide, by cbv, by cbv, by decide⟩

end Walk

end Winnow
