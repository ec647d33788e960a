import Winnow.Proofs.Image

/-!
# Images of a host of the other order

What a host of the other order writes is what is written here with the bytes of the order
number and of every record reversed. A reader finds in it the same title and the same
cells, and that it is not its own.
-/

namespace Winnow

namespace Image

def swapRecords : List UInt8 → List UInt8
  | a :: b :: c :: d :: rest => d :: c :: b :: a :: swapRecords rest
  | bs => bs

/-- An image with the number that tells its order and all of its records reversed. -/
def swapped (bs : List UInt8) : List UInt8 :=
  bs.take 16 ++ ((bs.drop 16).take 8).reverse ++ (bs.drop 24).take 232 ++
    swapRecords (bs.drop 256)

theorem swapRecords_body (o : ByteOrder) (cells : List Cell) :
    swapRecords (body o cells) = body o.other cells := by
  induction cells with
  | nil => rfl
  | cons c cells ih =>
    have hone (w : UInt32) (rest : List UInt8) : swapRecords (o.bytes w ++ rest) =
        o.other.bytes w ++ swapRecords rest := by
      cases o <;> rfl
    rw [body_cons, body_cons, hone, ih]

theorem swapped_bytes {p : Pieces} (h : p.Fit) : swapped p.bytes =
    { p with order := p.order.reverse, records := swapRecords p.records : Pieces }.bytes := by
  have htags : p.bytes.take 16 = Utf8.encode "gg dump:endian: " := by
    rw [p.bytes_eq]
    exact List.take_left' Pieces.length_tags
  have horder : (p.bytes.drop 16).take 8 = p.order := by
    rw [p.bytes_eq, List.drop_left' Pieces.length_tags]
    exact List.take_left' h.order
  have hmiddle : (p.bytes.drop 24).take 232 = titleTag ++ (p.title ++ (marker ++ p.padding)) := by
    have hcut : p.bytes.drop 24 =
        (titleTag ++ (p.title ++ (marker ++ p.padding))) ++ p.records := by
      rw [h.drop_order]
      simp only [List.append_assoc]
    have hmarker : marker.length = 2 := rfl
    have hroom : p.title.length + p.padding.length = 222 := h.header
    rw [hcut]
    apply List.take_left'
    simp only [List.length_append, length_titleTag, hmarker]
    omega
  rw [swapped, htags, horder, hmiddle, h.drop_header, Pieces.bytes_eq]
  simp only [List.append_assoc]

variable {l : Layout}

theorem probe_other (o : ByteOrder) : probe o.other = (probe o).reverse := by
  cases o
  · rfl
  · exact (List.reverse_reverse _).symm

theorem write_other {o : ByteOrder} {a : Automaton l} {title : String} {bs : List UInt8}
    (h : write o a title = .ok bs) : write o.other a title = .ok (swapped bs) := by
  obtain ⟨⟨hlength, hmarker⟩, rfl⟩ := (write_eq_ok_iff _ _ _ _).1 h
  have hbytes : swapped (pieces o a title).bytes = (pieces o.other a title).bytes := by
    rw [swapped_bytes (fit_pieces o a hlength hmarker)]
    simp only [pieces, swapRecords_body, probe_other]
  exact (write_eq_ok_iff _ _ _ _).2 ⟨⟨hlength, hmarker⟩, hbytes⟩

/-- An image with its number and its records reversed is what a host of the other order writes
for the same table and title. It is read as the same title and the same cells, each with its
target and its signed terminal, and as not of this host. -/
theorem read_swapped (host : ByteOrder) (a : Automaton l) (title : String)
    (h : (writeTo host a title []).2 = .ok ()) :
    writeTo host.other a title [] = (swapped (writeTo host a title []).1, .ok ()) ∧
    ∃ i, read host l (writeTo host a title []).1 = .ok i ∧
      i.isNative = true ∧ i.title = title ∧ i.cells.toList = cellsOf a ∧
      read host l (swapped (writeTo host a title []).1) = .ok { i with isNative := false } := by
  rw [writeTo_eq] at h
  rw [writeTo_eq, writeTo_eq]
  cases hw : write host a title with
  | error e =>
    rw [hw] at h
    cases h
  | ok bs =>
    have hother := write_other hw
    have hforeign : decide (host.other = host) = false := by cases host <;> rfl
    rw [hother]
    refine ⟨rfl, _, read_of_write host hw, decide_eq_true rfl, rfl, rfl, ?_⟩
    rw [← hforeign]
    exact read_of_write host hother

theorem read_swapped_of_negative_terminal :
    ∃ (a : Automaton .nibble) (i : Image .nibble),
      read .little .nibble (swapped (writeTo .little a "left" []).1) = .ok i ∧
      i.isNative = false ∧ i.title = "left" ∧ i.cells[19]? = some (.ofFields 7 (-3)) ∧
      (Cell.ofFields 7 (-3)).word = 0xfffffd07 := by
  let a : Automaton .nibble := (Automaton.empty true).setCell ⟨1, 3⟩ (.ofFields 7 (-3))
  have hwritten : (writeTo .little a "left" []).2 = .ok () := by decide
  obtain ⟨-, i, -, -, htitle, hcells, hread⟩ := read_swapped .little a "left" hwritten
  have hcell : i.cells[19]? = some (.ofFields 7 (-3)) := by
    rw [← Array.getElem?_toList, hcells]
    decide
  exact ⟨a, _, hread, rfl, htitle, hcell, by decide⟩

end Image

end Winnow
