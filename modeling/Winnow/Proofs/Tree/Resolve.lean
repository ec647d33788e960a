import Mathlib.Data.List.Induction
import Winnow.Tree.Basic

/-!
# Where paths lead

What a path leads to is in the tree, and it is a file or a directory: all links are
followed. The path that names a place leads to this place if no link is there, since
the places on the way are directories. So a file is found at one place only, its own.
-/

namespace Winnow

namespace Path

theorem splitSlashes_eq_splitOn (cs : List Char) : splitSlashes cs = cs.splitOn '/' := by
  induction cs with
  | nil => rfl
  | cons c cs ih =>
    rw [List.splitOn, List.splitOnP_cons_eq_if_modifyHead, ← List.splitOn, ← ih]
    by_cases hc : c = '/'
    · subst hc
      rfl
    · rw [splitSlashes.eq_3 _ _ hc, if_neg (by simpa using hc)]
      cases hparts : splitSlashes cs with
      | nil => exact absurd (ih.symm.trans hparts) (List.splitOn_ne_nil '/' cs)
      | cons part parts => rfl

theorem parts_text {p : Place} (hp : p ≠ []) (h : ∀ s ∈ p, '/' ∉ s.toList) :
    parts p.text = "" :: p := by
  have hslash : ("" :: p).map String.toList = [] :: p.map String.toList := rfl
  have hjoined : p.text.toList = ['/'].intercalate (("" :: p).map String.toList) := by
    rw [Place.text, String.toList_append, String.toList_intercalate, hslash]
    cases p with
    | nil => exact absurd rfl hp
    | cons s p => rfl
  have hcut : splitSlashes p.text.toList = ("" :: p).map String.toList := by
    rw [splitSlashes_eq_splitOn, hjoined]
    apply List.splitOn_intercalate
    · intro cs hcs
      obtain ⟨s, hs, rfl⟩ := List.mem_map.1 hcs
      rcases List.mem_cons.1 hs with rfl | hs
      · exact List.not_mem_nil
      · exact h s hs
    · exact List.cons_ne_nil _ _
  rw [parts, hcut, List.map_map]
  exact List.map_id'' (fun s => String.ofList_toList) _

end Path

namespace Tree

variable {t : Tree} {p q : Place} {e : Entry}

theorem mem_of_get? (h : t.get? p = some e) (hp : p ≠ []) : (p, e) ∈ t.entries := by
  rw [get?, if_neg hp] at h
  obtain ⟨before, after, hentries, -⟩ := List.lookup_eq_some_iff.1 h
  rw [hentries]
  exact List.mem_append_right before List.mem_cons_self

theorem mem_of_get?_of_ne_dir (h : t.get? p = some e) (he : e ≠ .dir) : (p, e) ∈ t.entries := by
  apply mem_of_get? h
  intro hp
  rw [hp] at h
  exact he (Option.some.inj h).symm

namespace WellFormed

theorem get?_of_mem (h : t.WellFormed) (he : (p, e) ∈ t.entries) : t.get? p = some e := by
  rw [get?, if_neg (h.ne_root p e he)]
  obtain ⟨before, after, hentries⟩ := List.append_of_mem he
  refine List.lookup_eq_some_iff.2 ⟨before, after, hentries, ?_⟩
  intro x hx
  have hnodup := h.nodup
  rw [hentries, List.map_append, List.map_cons, List.nodup_append] at hnodup
  exact bne_iff_ne.2 (hnodup.2.2 x.1 (List.mem_map_of_mem hx) p List.mem_cons_self).symm

theorem dir_dropLast (h : t.WellFormed) (he : t.get? p = some e) :
    t.get? p.dropLast = some .dir := by
  by_cases hp : p = []
  · rw [hp]
    rfl
  · exact h.parent p e (mem_of_get? he hp)

theorem dir_of_prefix (h : t.WellFormed) (he : t.get? p = some e) (hq : q <+: p)
    (hne : q ≠ p) : t.get? q = some .dir := by
  induction p using List.reverseRecOn generalizing e with
  | nil => exact absurd (List.prefix_nil.1 hq) hne
  | append_singleton p s ih =>
    have hdir := h.dir_dropLast he
    rw [List.dropLast_concat] at hdir
    have hqp : q <+: p := (List.prefix_concat_iff.1 hq).resolve_left hne
    by_cases hqp' : q = p
    · rw [hqp']
      exact hdir
    · exact ih hdir hqp hqp'

theorem isName (h : t.WellFormed) (he : t.get? p = some e) : ∀ s ∈ p, IsName s := by
  by_cases hp : p = []
  · intro s hs
    rw [hp] at hs
    exact absurd hs List.not_mem_nil
  · exact h.names p e (mem_of_get? he hp)

end WellFormed

/-! Following names -/

theorem find_name {links : Nat} {here : Place} {s : String} (hs : IsName s) (rest : List String) :
    t.find links here (s :: rest) = match t.get? (here ++ [s]) with
      | none => if rest.isEmpty then .ok (here ++ [s], none) else .error .notFound
      | some .dir => t.find links (here ++ [s]) rest
      | some (.file data) =>
        if rest.isEmpty then .ok (here ++ [s], some (.file data)) else .error .notDirectory
      | some (.link target) =>
        match links with
        | 0 => .error .linkLoop
        | links + 1 =>
          t.find links (if Path.isAbsolute target then [] else here)
            (Path.parts target ++ rest) := by
  rw [find]
  exact (if_neg (not_or.2 ⟨hs.ne_empty, hs.ne_here⟩)).trans
    ((if_neg hs.ne_parent).trans (if_neg (Nat.not_lt.2 hs.length_le)))

theorem find_dirs {links : Nat} {here : Place} (names : ∀ s ∈ p, IsName s)
    (dirs : ∀ q, q <+: p → t.get? (here ++ q) = some .dir) (rest : List String) :
    t.find links here (p ++ rest) = t.find links (here ++ p) rest := by
  induction p generalizing here with
  | nil => rw [List.nil_append, List.append_nil]
  | cons s p ih =>
    have hs : t.get? (here ++ [s]) = some .dir := dirs [s] (List.prefix_append [s] p)
    have hnext (q : Place) : here ++ [s] ++ q = here ++ (s :: q) := List.append_assoc here [s] q
    rw [List.cons_append, find_name (names s List.mem_cons_self), hs]
    have hdirs (q : Place) (hq : q <+: p) : t.get? (here ++ [s] ++ q) = some .dir := by
      rw [hnext]
      exact dirs (s :: q) (List.cons_prefix_cons.2 ⟨rfl, hq⟩)
    rw [← hnext p]
    exact ih (fun s' hs' => names s' (List.mem_cons_of_mem s hs')) hdirs

theorem WellFormed.find_eq (h : t.WellFormed) (he : t.get? p = some e)
    (hlink : ∀ target, e ≠ .link target) (links : Nat) :
    t.find links [] p = .ok (p, some e) := by
  cases p using List.reverseRecOn with
  | nil =>
    obtain rfl : .dir = e := Option.some.inj he
    rw [find]
  | append_singleton p s =>
    have hdirs : ∀ q, q <+: p → t.get? ([] ++ q) = some .dir := by
      intro q hq
      apply h.dir_of_prefix he (hq.trans (List.prefix_append p [s]))
      intro heq
      have hlength := hq.length_le
      rw [heq, List.length_append, List.length_singleton] at hlength
      exact Nat.not_succ_le_self _ hlength
    have hnames := h.isName he
    rw [find_dirs (fun s' hs' => hnames s' (List.mem_append_left _ hs')) hdirs, List.nil_append,
      find_name (hnames s List.mem_concat_self), he]
    cases e with
    | dir => rw [find]
    | file data => rfl
    | link target => exact absurd rfl (hlink target)

theorem WellFormed.get?_of_find (h : t.WellFormed) {links : Nat} {here : Place}
    {parts : List String} (hhere : t.get? here = some .dir)
    (hfind : t.find links here parts = .ok (p, some e)) :
    t.get? p = some e ∧ ∀ target, e ≠ .link target := by
  fun_induction find t links here parts with
  | case1 links here =>
    cases hfind
    exact ⟨hhere, nofun⟩
  | case2 links here part rest hskip ih => exact ih hhere hfind
  | case3 links here rest hskip ih => exact ih (h.dir_dropLast hhere) hfind
  | case4 => cases hfind
  | case5 => cases hfind
  | case6 => cases hfind
  | case7 links here part rest _ _ _ hdir ih => exact ih hdir hfind
  | case8 links here part rest _ _ _ data hfile =>
    cases hfind
    exact ⟨hfile, nofun⟩
  | case9 => cases hfind
  | case10 => cases hfind
  | case11 here part rest _ _ _ target hlink links ih =>
    apply ih _ hfind
    split
    · rfl
    · exact hhere

theorem locate_of_resolve {cwd : Place} {path : String} (h : t.resolve cwd path = .ok (p, e)) :
    t.locate cwd path = .ok (p, some e) := by
  rw [resolve] at h
  split at h
  · cases h
  · cases h
  · rename_i hlocate
    cases h
    exact hlocate

theorem WellFormed.get?_of_resolve (h : t.WellFormed) {path : String}
    (hresolve : t.resolve [] path = .ok (p, e)) :
    t.get? p = some e ∧ ∀ target, e ≠ .link target := by
  have hlocate := locate_of_resolve hresolve
  rw [locate, ite_self] at hlocate
  split at hlocate
  · cases hlocate
  · split at hlocate
    · cases hlocate
    · exact h.get?_of_find rfl hlocate

theorem not_mem_intercalate {α : Type} {x : α} {sep : List α} {ls : List (List α)}
    (hsep : x ∉ sep) (h : ∀ l ∈ ls, x ∉ l) : x ∉ sep.intercalate ls := by
  induction ls with
  | nil => exact List.not_mem_nil
  | cons l ls ih =>
    have hl := h l List.mem_cons_self
    cases ls with
    | nil =>
      rw [List.intercalate_singleton]
      exact hl
    | cons l' ls =>
      rw [List.intercalate_cons_cons, List.mem_append, List.mem_append, not_or, not_or]
      exact ⟨⟨hl, hsep⟩, ih fun l hl => h l (List.mem_cons_of_mem _ hl)⟩

theorem WellFormed.resolve_text (h : t.WellFormed) (he : t.get? p = some e)
    (hlink : ∀ target, e ≠ .link target) : t.resolve [] p.text = .ok (p, e) := by
  have hnames := h.isName he
  have htext : p.text.toList = '/' :: ("/".intercalate p).toList := by
    rw [Place.text, String.toList_append]
    rfl
  have hnul : '\x00' ∉ p.text.toList := by
    rw [htext, String.toList_intercalate]
    apply List.not_mem_cons_of_ne_of_not_mem (by decide)
    apply not_mem_intercalate (by decide)
    intro cs hcs
    obtain ⟨s, hs, rfl⟩ := List.mem_map.1 hcs
    exact (hnames s hs).no_nul
  have habsolute : Path.isAbsolute p.text = true := by
    rw [Path.isAbsolute, htext]
    rfl
  have hparts : t.find maxLinks [] (Path.parts p.text) = t.find maxLinks [] p := by
    by_cases hp : p = []
    · rw [hp]
      cbv
    · rw [Path.parts_text hp (fun s hs => (hnames s hs).no_slash), find, if_pos (.inl rfl)]
  have hempty : p.text.isEmpty = false := by
    rw [← Bool.not_eq_true, String.isEmpty_iff]
    intro hnone
    rw [hnone] at htext
    cases htext
  have hcontains : p.text.toList.contains '\x00' = false := by
    simpa using hnul
  rw [resolve, locate, hempty, hcontains, habsolute, if_pos rfl, hparts, h.find_eq he hlink]
  rfl

end Tree

end Winnow
