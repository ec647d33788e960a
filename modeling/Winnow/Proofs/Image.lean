import Winnow.Proofs.Image.Pieces
import Winnow.Proofs.Utf8

/-!
# Images that are written and read again

An image can be written exactly if its title fits and does not hold the marker, and
nothing is written else. It is read back as it was: the marker that ends the title is
then the first one in the header, also where the title ends in the first of its bytes,
and the cells are cut into as many planes as there were.
-/

namespace Winnow

namespace Image

variable {l : Layout}

theorem length_header (o : ByteOrder) {t : List UInt8} (h : t.length ≤ maxTitleBytes) :
    (header o t).length = headerBytes := by
  have hroom : t.length + (List.replicate (maxTitleBytes - t.length) (0 : UInt8)).length =
      maxTitleBytes := by
    rw [List.length_replicate]
    exact Nat.add_sub_of_le h
  exact Pieces.length_header (p := ⟨probe o, t, _, []⟩) (length_probe o) hroom

/-! The planes -/

theorem length_cellsOf (a : Automaton l) : (cellsOf a).length = l.width * a.size := by
  have hsum (ps : List (Plane l)) :
      (ps.flatMap (·.cells.toList)).length = l.width * ps.length := by
    induction ps with
    | nil => rfl
    | cons p ps ih =>
      rw [List.flatMap_cons, List.length_append, ih, Vector.length_toList, List.length_cons,
        Nat.mul_succ, Nat.add_comm]
  exact hsum a.planes.toList

variable {a : Automaton l} {i : Image l}

theorem write_eq_ok_iff (o : ByteOrder) (a : Automaton l) (title : String) (bs : List UInt8) :
    write o a title = .ok bs ↔
      ((Utf8.encode title).length ≤ maxTitleBytes ∧ ¬marker <:+: Utf8.encode title) ∧
        bs = header o (Utf8.encode title) ++ body o (cellsOf a) := by
  simp only [write, beforeMarker?_isSome_iff]
  split
  · rename_i hlong
    simp [Nat.not_le.2 hlong]
  · rename_i hshort
    split
    · rename_i hmarker
      simp [hmarker]
    · rename_i hmarker
      simp [hmarker, Nat.not_lt.1 hshort, eq_comm]

/-- A writer gets all of the image or nothing. -/
theorem writeTo_eq (o : ByteOrder) (a : Automaton l) (title : String) (out : List UInt8) :
    writeTo o a title out = match write o a title with
      | .ok bs => (out ++ bs, .ok ())
      | .error e => (out, .error e) := by
  have hcells (cells : List Cell) (out : List UInt8) :
      cells.foldl (fun out c => out ++ o.bytes c.word) out = out ++ body o cells := by
    induction cells generalizing out with
    | nil => exact (List.append_nil out).symm
    | cons c cells ih => rw [List.foldl_cons, ih, body_cons, List.append_assoc]
  have hplanes (ps : List (Plane l)) (out : List UInt8) :
      ps.foldl (fun out p => p.cells.foldl (fun out c => out ++ o.bytes c.word) out) out =
        out ++ body o (ps.flatMap (·.cells.toList)) := by
    induction ps generalizing out with
    | nil => exact (List.append_nil out).symm
    | cons p ps ih =>
      rw [List.foldl_cons, ih, ← Vector.foldl_toList, hcells, List.flatMap_cons, body, body, body,
        List.flatMap_append, List.append_assoc]
  rw [writeTo, write]
  split
  · rfl
  · split
    · rfl
    · rw [← Array.foldl_toList, hplanes, List.append_assoc]
      rfl

def pieces (o : ByteOrder) (a : Automaton l) (title : String) : Pieces where
  order := probe o
  title := Utf8.encode title
  padding := List.replicate (maxTitleBytes - (Utf8.encode title).length) 0
  records := body o (cellsOf a)

theorem fit_pieces {title : String} (o : ByteOrder) (a : Automaton l)
    (hlength : (Utf8.encode title).length ≤ maxTitleBytes)
    (hmarker : ¬marker <:+: Utf8.encode title) : (pieces o a title).Fit where
  order := length_probe o
  header := by
    rw [pieces, List.length_replicate]
    exact Nat.add_sub_of_le hlength
  first := hmarker

theorem image_pieces (host o : ByteOrder) (a : Automaton l) (title : String) :
    (pieces o a title).image host l = ⟨title, o = host, (cellsOf a).toArray⟩ := by
  have hnative : (pieces o a title).isNative host = decide (o = host) := by
    cases o <;> cases host <;> rfl
  have horder : (pieces o a title).byteOrder host = o := by
    cases o <;> cases host <;> rfl
  rw [Pieces.image, hnative, horder, pieces, readCells_body, Utf8.decodeLossy_encode]

theorem read_of_write {o : ByteOrder} {title : String} {bs : List UInt8} (host : ByteOrder)
    (h : write o a title = .ok bs) :
    read host l bs = .ok ⟨title, o = host, (cellsOf a).toArray⟩ := by
  obtain ⟨⟨hlength, hmarker⟩, hbs⟩ := (write_eq_ok_iff _ _ _ _).1 h
  have hrecords : 4 * l.width ∣ (pieces o a title).records.length := by
    rw [pieces, length_body, length_cellsOf, ← Nat.mul_assoc]
    exact Nat.dvd_mul_right _ _
  exact Pieces.read_eq_ok_iff.2 ⟨pieces o a title, fit_pieces o a hlength hmarker, hrecords,
    hbs.symm, image_pieces host o a title⟩

end Image

end Winnow
