import Winnow.Proofs.Image

/-!
# Which bytes are an image

A reader asks for the tags at their places, for a marker somewhere in what is left of the
header, and for whole planes behind it, and for nothing else. The cells that it finds do
not depend on the layout. What it does not look at is the rest of the header behind the
marker, and a title that is not text is read as other text than it is. Where neither is the
case, an image of a host of the same order is what would be written for what was read.
-/

namespace Winnow

namespace Pieces

open Image (titleTag marker maxTitleBytes)

theorem infix_take_of_prefix_drop {s : List UInt8} {j : Nat} (hj : j ≤ 222)
    (h : marker <+: s.drop j) : marker <:+: s.take 224 := by
  have hroom : marker.length ≤ 224 - j := by
    change 2 ≤ _
    omega
  have hfirst : marker <+: (s.take 224).drop j := by
    rw [List.drop_take]
    exact List.prefix_take_iff.2 ⟨h, hroom⟩
  exact hfirst.isInfix.trans (List.drop_suffix j _).isInfix

theorem exists_title {s : List UInt8} (hlength : 224 ≤ s.length) (h : marker <:+: s.take 224) :
    ∃ t padding records, t ++ (marker ++ (padding ++ records)) = s ∧
      t.length + padding.length = maxTitleBytes ∧ ¬marker <:+: t := by
  obtain ⟨t, ht⟩ := Option.isSome_iff_exists.1 (Image.beforeMarker?_isSome_iff.2 h)
  obtain ⟨⟨padding, hfield⟩, hfirst⟩ := Image.beforeMarker?_eq_some ht
  have hsize := congrArg List.length hfield
  have hmarker : marker.length = 2 := rfl
  simp only [List.length_append, List.length_take, hmarker] at hsize
  refine ⟨t, padding, s.drop 224, ?_, ?_, hfirst⟩
  · calc t ++ (marker ++ (padding ++ s.drop 224))
        = (t ++ (marker ++ padding)) ++ s.drop 224 := by simp only [List.append_assoc]
      _ = s.take 224 ++ s.drop 224 := by rw [hfield]
      _ = s := List.take_append_drop 224 s
  · change _ = 222
    omega

theorem exists_fit {bs : List UInt8} (hlength : 256 ≤ bs.length)
    (htags : Utf8.encode "gg dump:endian: " <+: bs) (htitle : titleTag <+: bs.drop 24)
    (hmarker : ∃ k, 32 ≤ k ∧ k ≤ 254 ∧ marker <+: bs.drop k) :
    ∃ p : Pieces, p.Fit ∧ p.bytes = bs := by
  obtain ⟨r, rfl⟩ := htags
  have hdrop (n : Nat) : (Utf8.encode "gg dump:endian: " ++ r).drop (16 + n) = r.drop n := by
    rw [← length_tags]
    exact List.drop_length_add_append n
  obtain ⟨s, hs⟩ := htitle
  have hr : r.take 8 ++ (titleTag ++ s) = r := by
    rw [hs, hdrop 8, List.take_append_drop]
  have horder : (r.take 8).length = 8 := by
    rw [List.length_append, length_tags] at hlength
    rw [List.length_take]
    omega
  have hprefix : (r.take 8 ++ titleTag).length = 16 := by
    rw [List.length_append, horder, Image.length_titleTag]
  have hskip (j : Nat) : r.drop (16 + j) = s.drop j := by
    rw [← hr, ← List.append_assoc, ← hprefix]
    exact List.drop_length_add_append j
  have hfield (j : Nat) : (Utf8.encode "gg dump:endian: " ++ r).drop (32 + j) = s.drop j := by
    have hnext := (hdrop (16 + j)).trans (hskip j)
    rw [← Nat.add_assoc] at hnext
    exact hnext
  have hsize : 224 ≤ s.length := by
    have hdropped := congrArg List.length (hfield 0)
    rw [List.length_drop, List.drop_zero] at hdropped
    omega
  obtain ⟨k, hlow, hhigh, hk⟩ := hmarker
  obtain ⟨j, rfl⟩ := Nat.exists_eq_add_of_le hlow
  rw [hfield] at hk
  have hj : j ≤ 222 := by omega
  obtain ⟨t, padding, records, hcut, hroom, hfirst⟩ :=
    exists_title hsize (infix_take_of_prefix_drop hj hk)
  refine ⟨⟨r.take 8, t, padding, records⟩, ⟨horder, hroom, hfirst⟩, ?_⟩
  rw [bytes_eq, hcut, hr]

end Pieces

namespace Image

variable {host : ByteOrder} {l : Layout} {p : Pieces} {bs : List UInt8} {i : Image l}

theorem exists_read_iff (host : ByteOrder) (l : Layout) (bs : List UInt8) :
    (∃ i, read host l bs = .ok i) ↔
      256 ≤ bs.length ∧ Utf8.encode "gg dump:endian: " <+: bs ∧ titleTag <+: bs.drop 24 ∧
        (∃ k, 32 ≤ k ∧ k ≤ 254 ∧ marker <+: bs.drop k) ∧ 4 * l.width ∣ bs.length - 256 := by
  constructor
  · intro h
    obtain ⟨i, hi⟩ := h
    obtain ⟨p, hp, hwhole, rfl, -⟩ := Pieces.read_eq_ok_iff.1 hi
    have hroom : p.title.length + p.padding.length = 222 := hp.header
    have hlength := hp.length_bytes
    refine ⟨by omega, ?_, ?_, ⟨32 + p.title.length, by omega, by omega, ?_⟩, ?_⟩
    · rw [p.bytes_eq]
      exact List.prefix_append _ _
    · rw [hp.drop_order]
      exact List.prefix_append _ _
    · rw [hp.drop_title]
      exact List.prefix_append _ _
    · rw [hlength, Nat.add_sub_cancel_left]
      exact hwhole
  · intro h
    obtain ⟨hlength, htags, htitle, hmarker, hwhole⟩ := h
    obtain ⟨p, hp, rfl⟩ := Pieces.exists_fit hlength htags htitle hmarker
    rw [hp.length_bytes, Nat.add_sub_cancel_left] at hwhole
    exact ⟨p.image host l, Pieces.read_eq_ok_iff.2 ⟨p, hp, hwhole, rfl, rfl⟩⟩

theorem four_dvd (h : 4 * l.width ∣ p.records.length) : 4 ∣ p.records.length :=
  Nat.dvd_trans (Nat.dvd_mul_right 4 l.width) h

theorem size_cells (h : 4 * l.width ∣ p.records.length) :
    (p.image host l).cells.size = p.records.length / 4 := by
  rw [Pieces.image, List.size_toArray, length_readCells _ (four_dvd h)]

/-- The title of an image is text, and only zeros follow the marker in the header. -/
def Plain (bs : List UInt8) : Prop :=
  ∃ t rest, (bs.take 256).drop 32 = t ++ (marker ++ rest) ∧ ¬marker <:+: t ∧
    (∃ s, t = Utf8.encode s) ∧ ∀ b ∈ rest, b = 0

theorem pieces_of_plain (hp : p.Fit) (h : Plain p.bytes) :
    (∃ s, p.title = Utf8.encode s) ∧ ∀ b ∈ p.padding, b = 0 := by
  obtain ⟨t, rest, hfield, hfirst, htext, hzero⟩ := h
  rw [hp.field] at hfield
  obtain ⟨htitle, hpadding⟩ := append_marker_inj hp.first hfirst hfield
  rw [htitle, hpadding]
  exact ⟨htext, hzero⟩

theorem encode_title (host : ByteOrder) (l : Layout) (hp : p.Fit) (h : Plain p.bytes) :
    Utf8.encode (p.image host l).title = p.title := by
  obtain ⟨⟨s, hs⟩, -⟩ := pieces_of_plain hp h
  rw [Pieces.image, hs, Utf8.decodeLossy_encode]

theorem header_append_body (hp : p.Fit) (hwhole : 4 * l.width ∣ p.records.length)
    (hnative : p.isNative host = true) (hplain : Plain p.bytes) :
    header host (Utf8.encode (p.image host l).title) ++
      body host (p.image host l).cells.toList = p.bytes := by
  obtain ⟨-, hzero⟩ := pieces_of_plain hp hplain
  have horder : p.order = probe host := beq_iff_eq.1 hnative
  have hpadding : p.padding = List.replicate (maxTitleBytes - p.title.length) 0 :=
    List.eq_replicate_iff.2 ⟨Nat.eq_sub_of_add_eq' hp.header, hzero⟩
  have hbyteOrder : p.byteOrder host = host := if_pos hnative
  have hbody : body host (p.image host l).cells.toList = p.records := by
    rw [Pieces.image, hbyteOrder]
    exact body_readCells host (four_dvd hwhole)
  rw [encode_title host l hp hplain, hbody, Pieces.bytes, Pieces.header, horder, hpadding]
  rfl

theorem exists_cellsOf {cells : List Cell} (h : l.width ∣ cells.length) :
    ∃ a : Automaton l, cellsOf a = cells := by
  have hplanes (n : Nat) (cells : List Cell) (hn : cells.length = l.width * n) :
      ∃ ps : List (Plane l), ps.flatMap (·.cells.toList) = cells := by
    induction n generalizing cells with
    | zero => exact ⟨[], (List.length_eq_zero_iff.1 hn).symm⟩
    | succ n ih =>
      have hfirst : (cells.take l.width).length = l.width := by
        rw [List.length_take, hn, Nat.mul_succ]
        omega
      have hrest : (cells.drop l.width).length = l.width * n := by
        rw [List.length_drop, hn, Nat.mul_succ, Nat.add_sub_cancel]
      obtain ⟨ps, hps⟩ := ih _ hrest
      refine ⟨⟨⟨(cells.take l.width).toArray, hfirst⟩⟩ :: ps, ?_⟩
      rw [List.flatMap_cons, hps]
      exact List.take_append_drop l.width cells
  obtain ⟨n, hn⟩ := h
  obtain ⟨ps, hps⟩ := hplanes n cells hn
  exact ⟨⟨true, ps.toArray, .empty, .empty⟩, hps⟩

theorem exists_write (hp : p.Fit) (hwhole : 4 * l.width ∣ p.records.length)
    (hnative : p.isNative host = true) (hplain : Plain p.bytes) :
    ∃ a : Automaton l, cellsOf a = (p.image host l).cells.toList ∧
      write host a (p.image host l).title = .ok p.bytes := by
  have hcells : l.width ∣ (p.image host l).cells.toList.length := by
    rw [Array.length_toList, size_cells hwhole]
    exact Nat.dvd_div_of_mul_dvd hwhole
  obtain ⟨a, ha⟩ := exists_cellsOf hcells
  have htitle := encode_title host l hp hplain
  have hfits : (Utf8.encode (p.image host l).title).length ≤ maxTitleBytes := by
    rw [htitle]
    exact Nat.le.intro hp.header
  have hfirst : ¬marker <:+: Utf8.encode (p.image host l).title := by
    rw [htitle]
    exact hp.first
  refine ⟨a, ha, (write_eq_ok_iff _ _ _ _).2 ⟨⟨hfits, hfirst⟩, ?_⟩⟩
  rw [ha, header_append_body hp hwhole hnative hplain]

/-- An image is read exactly if it is long enough, has its tags where they belong, a marker
that begins from byte 32 to byte 254, and whole planes behind its header; in which layout
matters for the last alone. If it is of this host, its title is text and the header is
filled up with zeros, then it is what would be written for the title and the cells that are
read, so that no other such image is read as the same. -/
theorem read_canonical (host : ByteOrder) (l : Layout) (bs : List UInt8) :
    ((∃ i, read host l bs = .ok i) ↔
      256 ≤ bs.length ∧ Utf8.encode "gg dump:endian: " <+: bs ∧
        Utf8.encode " title: " <+: bs.drop 24 ∧
        (∃ k, 32 ≤ k ∧ k ≤ 254 ∧ [0x04, 0x1a] <+: bs.drop k) ∧
        4 * l.width ∣ bs.length - 256) ∧
    ∀ i, read host l bs = .ok i →
      i.cells.size = (bs.length - 256) / 4 ∧
      (∀ l' i', read host l' bs = .ok i' → i'.cells = i.cells) ∧
      (i.isNative = true → Plain bs →
        header host (Utf8.encode i.title) ++ body host i.cells.toList = bs ∧
        (∃ a : Automaton l, cellsOf a = i.cells.toList ∧ write host a i.title = .ok bs) ∧
        ∀ l' bs' i', read host l' bs' = .ok i' → i'.isNative = true → Plain bs' →
          i'.title = i.title → i'.cells = i.cells → bs' = bs) := by
  refine ⟨exists_read_iff host l bs, fun i hi => ?_⟩
  obtain ⟨p, hp, hwhole, rfl, rfl⟩ := Pieces.read_eq_ok_iff.1 hi
  refine ⟨?_, fun l' i' hi' => ?_, fun hnative hplain => ?_⟩
  · rw [size_cells hwhole, hp.length_bytes, Nat.add_sub_cancel_left]
  · obtain ⟨q, hq, -, hbytes, rfl⟩ := Pieces.read_eq_ok_iff.1 hi'
    rw [hq.unique hp hbytes]
    rfl
  · have hwritten := header_append_body hp hwhole hnative hplain
    refine ⟨hwritten, exists_write hp hwhole hnative hplain, ?_⟩
    intro l' bs' i' hi' hnative' hplain' htitle hcells
    obtain ⟨q, hq, hwhole', rfl, rfl⟩ := Pieces.read_eq_ok_iff.1 hi'
    rw [← header_append_body hq hwhole' hnative' hplain', htitle, hcells, hwritten]

theorem read_canonical_of_odd_cells :
    ∃ bs i, read .big .nibble bs = .ok i ∧ i.title = "é" ∧ i.cells.size = 16 ∧
      header .big (Utf8.encode i.title) ++ body .big i.cells.toList = bs := by
  let p : Pieces := ⟨probe .big, Utf8.encode "é", .replicate 220 0, .replicate 64 7⟩
  have hpadding : p.padding.length = 220 := List.length_replicate
  have hp : p.Fit := ⟨by decide, by rw [hpadding]; rfl, by decide⟩
  have hread : read .big .nibble p.bytes = .ok (p.image .big .nibble) :=
    Pieces.read_eq_ok_iff.2 ⟨p, hp, by decide, rfl, rfl⟩
  have hplain : Plain p.bytes :=
    ⟨p.title, p.padding, hp.field, hp.first, ⟨"é", rfl⟩, fun _ => List.eq_of_mem_replicate⟩
  obtain ⟨hsize, -, hwritten⟩ := (read_canonical .big .nibble p.bytes).2 _ hread
  have hlength : (p.bytes.length - 256) / 4 = 16 := by rw [hp.length_bytes]; decide
  exact ⟨p.bytes, p.image .big .nibble, hread, Utf8.decodeLossy_encode "é", hsize.trans hlength,
    (hwritten rfl hplain).1⟩

end Image

end Winnow
