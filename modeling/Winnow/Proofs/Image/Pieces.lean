import Mathlib.Algebra.Ring.Nat
import Winnow.Image
import Winnow.Proofs.Except

/-!
# The pieces of an image

Beside its tags an image is made of four pieces: the number that tells the byte order, the
title, the padding that fills the header behind the marker, and the records of the cells.
An image can be read exactly if it is put together from pieces that fit, and what is read
is known from them. Words and their bytes, and lists of cells and their records, are the
same thing in either order.
-/

namespace Winnow

namespace ByteOrder

theorem arrange_arrange (o : ByteOrder) (bs : List UInt8) : o.arrange (o.arrange bs) = bs := by
  cases o with
  | little => rfl
  | big => exact List.reverse_reverse bs

theorem length_arrange (o : ByteOrder) (bs : List UInt8) : (o.arrange bs).length = bs.length := by
  cases o with
  | little => rfl
  | big => exact List.length_reverse

theorem length_bytes (o : ByteOrder) (w : UInt32) : (o.bytes w).length = 4 :=
  o.length_arrange _

theorem toNat_shift_or (w : UInt32) (b : UInt8) :
    (w <<< 8 ||| b.toUInt32).toNat = 2 ^ 8 * (w.toNat % 2 ^ 24) + b.toNat := by
  have hw : (w <<< 8).toNat = 2 ^ 8 * (w.toNat % 2 ^ 24) := by
    rw [UInt32.toNat_shiftLeft]
    simp only [UInt32.reduceToNat, Nat.reduceMod, Nat.shiftLeft_eq]
    omega
  rw [UInt32.toNat_or, hw, UInt8.toNat_toUInt32, ← Nat.two_pow_add_eq_or_of_lt b.toNat_lt]

theorem word_bytes (o : ByteOrder) (w : UInt32) : o.word (o.bytes w) = w := by
  rw [word, bytes, arrange_arrange, ← UInt32.toNat_inj]
  have hw := w.toNat_lt
  simp only [List.foldr_cons, List.foldr_nil, toNat_shift_or, UInt32.toNat_toUInt8,
    UInt32.toNat_shiftRight, UInt32.reduceToNat, Nat.reduceMod, Nat.shiftRight_eq_div_pow]
  omega

theorem bytes_word_little (a b c d : UInt8) :
    little.bytes (little.word [a, b, c, d]) = [a, b, c, d] := by
  have ha := a.toNat_lt
  have hb := b.toNat_lt
  have hc := c.toNat_lt
  have hd := d.toNat_lt
  have hword : (little.word [a, b, c, d]).toNat =
      a.toNat + 2 ^ 8 * b.toNat + 2 ^ 16 * c.toNat + 2 ^ 24 * d.toNat := by
    simp only [word, arrange, List.foldr_cons, List.foldr_nil, toNat_shift_or,
      UInt32.reduceToNat]
    omega
  simp only [bytes, arrange, List.cons.injEq, ← UInt8.toNat_inj, UInt32.toNat_toUInt8,
    UInt32.toNat_shiftRight, UInt32.reduceToNat, Nat.reduceMod, Nat.shiftRight_eq_div_pow, hword,
    and_true]
  omega

theorem bytes_word (o : ByteOrder) (a b c d : UInt8) :
    o.bytes (o.word [a, b, c, d]) = [a, b, c, d] := by
  cases o with
  | little => exact bytes_word_little a b c d
  | big => exact congrArg List.reverse (bytes_word_little d c b a)

end ByteOrder

namespace Image

variable {l : Layout} {o : ByteOrder} {bs t : List UInt8}

/-! The records -/

theorem body_cons (o : ByteOrder) (c : Cell) (cells : List Cell) :
    body o (c :: cells) = o.bytes c.word ++ body o cells := List.flatMap_cons

theorem length_body (o : ByteOrder) (cells : List Cell) :
    (body o cells).length = 4 * cells.length := by
  induction cells with
  | nil => rfl
  | cons c cells ih =>
    rw [body_cons, List.length_append, ih, ByteOrder.length_bytes, List.length_cons]
    omega

theorem readCells_body (o : ByteOrder) (cells : List Cell) :
    readCells o (body o cells) = cells := by
  induction cells with
  | nil => rfl
  | cons c cells ih =>
    rw [body_cons]
    have hone (rest : List UInt8) :
        readCells o (o.bytes c.word ++ rest) = ⟨o.word (o.bytes c.word)⟩ :: readCells o rest := by
      cases o <;> rfl
    rw [hone, ih, ByteOrder.word_bytes]

theorem body_readCells (o : ByteOrder) (h : 4 ∣ bs.length) : body o (readCells o bs) = bs := by
  induction bs using readCells.induct with
  | case1 a b c d rest ih =>
    have hrest : 4 ∣ rest.length := (Nat.dvd_add_left (Nat.dvd_refl 4)).1 h
    rw [readCells, body_cons, ih hrest, o.bytes_word]
    rfl
  | case2 bs hshort =>
    -- less than four bytes are a multiple of four only if there are none
    match bs with
    | [] => rfl
    | [_] | [_, _] | [_, _, _] => simp at h
    | a :: b :: c :: d :: rest => exact absurd rfl (hshort a b c d rest)

theorem length_readCells (o : ByteOrder) (h : 4 ∣ bs.length) :
    (readCells o bs).length = bs.length / 4 := by
  have hlength := length_body o (readCells o bs)
  rw [body_readCells o h] at hlength
  omega

/-! The marker -/

theorem isPrefixOf_marker (b : UInt8) (bs : List UInt8) :
    marker.isPrefixOf (b :: bs) = true ↔ marker <+: b :: bs :=
  List.isPrefixOf_iff_prefix

theorem beforeMarker?_isSome_iff {bs : List UInt8} :
    (beforeMarker? bs).isSome = true ↔ marker <:+: bs := by
  induction bs with
  | nil => simp [beforeMarker?, marker]
  | cons b bs ih =>
    rw [beforeMarker?, List.infix_cons_iff, ← ih, ← isPrefixOf_marker]
    split <;> simp [*]

theorem beforeMarker?_append {t : List UInt8} (h : ¬marker <:+: t) (rest : List UInt8) :
    beforeMarker? (t ++ (marker ++ rest)) = some t := by
  induction t with
  | nil => rfl
  | cons b t ih =>
    rw [List.infix_cons_iff, not_or] at h
    have hno : ¬marker <+: b :: (t ++ (marker ++ rest)) := by
      intro hp
      obtain ⟨rfl, hnext⟩ := List.cons_prefix_cons.1 hp
      -- a first byte of the marker at the end has its own first byte after it, not the second
      cases t with
      | nil => exact absurd (List.cons_prefix_cons.1 hnext).1 (by decide)
      | cons c t =>
        obtain ⟨rfl, -⟩ := List.cons_prefix_cons.1 hnext
        exact h.1 ⟨t, rfl⟩
    rw [List.cons_append, beforeMarker?, if_neg (mt (isPrefixOf_marker _ _).1 hno), ih h.2]
    rfl

theorem beforeMarker?_eq_some (h : beforeMarker? bs = some t) :
    (∃ rest, bs = t ++ (marker ++ rest)) ∧ ¬marker <:+: t := by
  induction bs generalizing t with
  | nil => cases h
  | cons b bs ih =>
    rw [beforeMarker?] at h
    split at h
    · rename_i hp
      obtain ⟨rest, hrest⟩ := (isPrefixOf_marker b bs).1 hp
      cases h
      exact ⟨⟨rest, hrest.symm⟩, by decide⟩
    · rename_i hp
      obtain ⟨t, ht, rfl⟩ := Option.map_eq_some_iff.1 h
      obtain ⟨⟨rest, rfl⟩, hno⟩ := ih ht
      refine ⟨⟨rest, rfl⟩, fun hin => ?_⟩
      rcases List.infix_cons_iff.1 hin with hfirst | hlater
      · exact hp ((isPrefixOf_marker _ _).2 (hfirst.trans (List.prefix_append (b :: t) _)))
      · exact hno hlater

theorem append_marker_inj {t' rest rest' : List UInt8} (ht : ¬marker <:+: t)
    (ht' : ¬marker <:+: t') (h : t ++ (marker ++ rest) = t' ++ (marker ++ rest')) :
    t = t' ∧ rest = rest' := by
  have hbefore := beforeMarker?_append ht rest
  rw [h, beforeMarker?_append ht'] at hbefore
  obtain rfl := Option.some.inj hbefore
  exact ⟨rfl, List.append_cancel_left (List.append_cancel_left h)⟩

/-! The tags -/

theorem expect_append (tag : List UInt8) (missing : String) (rest : List UInt8) :
    expect tag missing (tag ++ rest) = .ok rest := by
  have hp : tag.isPrefixOf (tag ++ rest) = true :=
    List.isPrefixOf_iff_prefix.2 (List.prefix_append tag rest)
  rw [expect, if_pos hp, List.drop_left]

theorem eq_append_of_expect {tag rest : List UInt8} {missing : String}
    (h : expect tag missing bs = .ok rest) : bs = tag ++ rest := by
  rw [expect] at h
  split at h
  · rename_i hp
    obtain ⟨rest, rfl⟩ := List.isPrefixOf_iff_prefix.1 hp
    cases h
    rw [List.drop_left]
  · cases h

theorem length_magic : magic.length = 8 := by decide

theorem length_orderTag : orderTag.length = 8 := by decide

theorem length_titleTag : titleTag.length = 8 := by decide

theorem length_probe (o : ByteOrder) : (probe o).length = 8 := by
  cases o <;> decide

end Image

/-- The parts of an image that are not the same in all images. -/
@[ext]
structure Pieces where
  order : List UInt8
  title : List UInt8
  padding : List UInt8
  records : List UInt8

namespace Pieces

open Image (magic orderTag titleTag marker probe maxTitleBytes headerBytes readHeader)

variable {host : ByteOrder} {l : Layout} {p q : Pieces} {bs : List UInt8}

def header (p : Pieces) : List UInt8 :=
  magic ++ orderTag ++ p.order ++ titleTag ++ p.title ++ marker ++ p.padding

def bytes (p : Pieces) : List UInt8 := p.header ++ p.records

/-- The pieces fill the header, and the marker behind the title is the first one. -/
structure Fit (p : Pieces) : Prop where
  order : p.order.length = 8
  header : p.title.length + p.padding.length = maxTitleBytes
  first : ¬marker <:+: p.title

def isNative (host : ByteOrder) (p : Pieces) : Bool := p.order == probe host

def byteOrder (host : ByteOrder) (p : Pieces) : ByteOrder :=
  if p.isNative host then host else host.other

def image (host : ByteOrder) (l : Layout) (p : Pieces) : Image l where
  title := Utf8.decodeLossy p.title
  isNative := p.isNative host
  cells := (Image.readCells (p.byteOrder host) p.records).toArray

theorem length_header (horder : p.order.length = 8)
    (hroom : p.title.length + p.padding.length = maxTitleBytes) :
    p.header.length = headerBytes := by
  have hmarker : marker.length = 2 := rfl
  simp only [header, List.length_append, Image.length_magic, Image.length_orderTag, horder,
    Image.length_titleTag, hmarker]
  change _ = 222 at hroom
  change _ = 256
  omega

theorem Fit.length_header (h : p.Fit) : p.header.length = headerBytes :=
  Pieces.length_header h.order h.header

/-! The places of the pieces -/

theorem bytes_eq (p : Pieces) : p.bytes = Utf8.encode "gg dump:endian: " ++
    (p.order ++ (titleTag ++ (p.title ++ (marker ++ (p.padding ++ p.records))))) := by
  have htags : magic ++ orderTag = Utf8.encode "gg dump:endian: " := by decide
  rw [← htags]
  simp only [bytes, header, List.append_assoc]

theorem length_tags : (Utf8.encode "gg dump:endian: ").length = 16 := by decide

namespace Fit

theorem length_bytes (h : p.Fit) : p.bytes.length = 256 + p.records.length := by
  rw [bytes, List.length_append, h.length_header]
  rfl

theorem drop_header (h : p.Fit) : p.bytes.drop 256 = p.records :=
  List.drop_left' h.length_header

theorem drop_order (h : p.Fit) :
    p.bytes.drop 24 = titleTag ++ (p.title ++ (marker ++ (p.padding ++ p.records))) := by
  rw [bytes_eq, ← List.append_assoc]
  apply List.drop_left'
  rw [List.length_append, length_tags, h.order]

theorem drop_title (h : p.Fit) :
    p.bytes.drop (32 + p.title.length) = marker ++ (p.padding ++ p.records) := by
  have hcut : p.bytes.drop (24 + (8 + p.title.length)) = (p.bytes.drop 24).drop
      (8 + p.title.length) := List.drop_drop.symm
  have htag : (titleTag ++ p.title).length = 8 + p.title.length := by
    rw [List.length_append, Image.length_titleTag]
  rw [← Nat.add_assoc] at hcut
  rw [hcut, h.drop_order, ← List.append_assoc]
  exact List.drop_left' htag

theorem field (h : p.Fit) :
    (p.bytes.take 256).drop 32 = p.title ++ (marker ++ p.padding) := by
  have hheader : p.bytes.take 256 = p.header := List.take_left' h.length_header
  have hcut : p.header = (magic ++ orderTag ++ p.order ++ titleTag) ++
      (p.title ++ (marker ++ p.padding)) := by
    simp only [Pieces.header, List.append_assoc]
  rw [hheader, hcut]
  apply List.drop_left'
  simp only [List.length_append, Image.length_magic, Image.length_orderTag, h.order,
    Image.length_titleTag]

end Fit

theorem Fit.unique (hp : p.Fit) (hq : q.Fit) (h : p.bytes = q.bytes) : p = q := by
  have horder : p.order = q.order := by
    rw [bytes_eq, bytes_eq] at h
    exact List.append_inj_left (List.append_cancel_left h) (hp.order.trans hq.order.symm)
  have hrecords : p.records = q.records := by
    rw [← hp.drop_header, h, hq.drop_header]
  have hfield : p.title ++ (marker ++ p.padding) = q.title ++ (marker ++ q.padding) := by
    rw [← hp.field, h, hq.field]
  obtain ⟨htitle, hpadding⟩ := Image.append_marker_inj hp.first hq.first hfield
  exact Pieces.ext horder htitle hpadding hrecords

/-! Reading -/

theorem isPrefixOf_append {q order : List UInt8} (hq : order.length = q.length)
    (rest : List UInt8) : q.isPrefixOf (order ++ rest) = (order == q) := by
  rw [Bool.eq_iff_iff, List.isPrefixOf_iff_prefix, beq_iff_eq]
  constructor
  · intro hp
    exact ((List.prefix_of_prefix_length_le hp (List.prefix_append order rest)
      (Nat.le_of_eq hq.symm)).eq_of_length hq.symm).symm
  · intro h
    rw [h]
    exact List.prefix_append q rest

theorem readHeader_header (host : ByteOrder) (h : p.Fit) :
    readHeader host p.header = .ok (Utf8.decodeLossy p.title, p.isNative host) := by
  have hprobe (rest : List UInt8) :
      (probe host).isPrefixOf (p.order ++ rest) = p.isNative host :=
    isPrefixOf_append (h.order.trans (Image.length_probe host).symm) rest
  have hdrop (rest : List UInt8) : (p.order ++ rest).drop 8 = rest := List.drop_left' h.order
  simp only [header, List.append_assoc]
  simp only [readHeader, Image.expect_append, bind, Except.bind, hprobe, hdrop,
    Image.beforeMarker?_append h.first]
  rfl

theorem exists_header {title : String} {isNative : Bool} (hlength : bs.length = headerBytes)
    (h : readHeader host bs = .ok (title, isNative)) (records : List UInt8) :
    ∃ p : Pieces, p.Fit ∧ p.header = bs ∧ p.records = records := by
  obtain ⟨r, hmagic, hr⟩ := bind_eq_ok_iff.1 h
  obtain ⟨s, horder, hs⟩ := bind_eq_ok_iff.1 hr
  obtain ⟨u, htitle, hu⟩ := bind_eq_ok_iff.1 hs
  have hbs := Image.eq_append_of_expect hmagic
  rw [Image.eq_append_of_expect horder] at hbs
  have hrest := Image.eq_append_of_expect htitle
  have hcut : s = s.take 8 ++ (titleTag ++ u) := by rw [← hrest, List.take_append_drop]
  cases ht : Image.beforeMarker? u with
  | none =>
    rw [ht] at hu
    cases hu
  | some t =>
    obtain ⟨⟨padding, hpadding⟩, hfirst⟩ := Image.beforeMarker?_eq_some ht
    have hmarker : marker.length = 2 := rfl
    have hbits := congrArg List.length hbs
    have hrestBits := congrArg List.length hrest
    have hpaddingBits := congrArg List.length hpadding
    change _ = 256 at hlength
    simp only [List.length_append, List.length_drop, Image.length_magic, Image.length_orderTag,
      Image.length_titleTag, hmarker] at hbits hrestBits hpaddingBits
    have horderBits : (s.take 8).length = 8 := by
      rw [List.length_take]
      omega
    have hroom : t.length + padding.length = maxTitleBytes := by
      change _ = 222
      omega
    refine ⟨⟨s.take 8, t, padding, records⟩, ⟨horderBits, hroom, hfirst⟩, ?_, rfl⟩
    simp only [header, List.append_assoc]
    rw [← hpadding, ← hcut, ← hbs]

/-- An image is read if it is made of pieces that fit, the records for whole planes, and
what is read is what the pieces stand for. -/
theorem read_eq_ok_iff {i : Image l} :
    Image.read host l bs = .ok i ↔
      ∃ p : Pieces, p.Fit ∧ 4 * l.width ∣ p.records.length ∧ p.bytes = bs ∧
        p.image host l = i := by
  constructor
  · intro h
    rw [Image.read] at h
    split at h
    · cases h
    · rename_i hlong
      obtain ⟨⟨title, isNative⟩, hheader, hbody⟩ := bind_eq_ok_iff.1 h
      have hlength : (bs.take headerBytes).length = headerBytes :=
        Nat.le_antisymm (List.length_take_le _ _) (Nat.not_lt.1 hlong)
      obtain ⟨p, hp, hbytes, hrecords⟩ := exists_header hlength hheader (bs.drop headerBytes)
      have hread := readHeader_header host hp
      rw [hbytes, hheader] at hread
      obtain ⟨rfl, rfl⟩ := Prod.mk.inj (Except.ok.inj hread)
      simp only at hbody
      split at hbody
      · rename_i hwhole
        refine ⟨p, hp, Nat.dvd_of_mod_eq_zero (hrecords ▸ hwhole), ?_, ?_⟩
        · rw [bytes, hbytes, hrecords, List.take_append_drop]
        · rw [image, hrecords]
          exact Except.ok.inj hbody
      · cases hbody
  · intro h
    obtain ⟨p, hp, hwhole, rfl, rfl⟩ := h
    have hlength := hp.length_header
    rw [Image.read, bytes]
    simp only [List.take_left' hlength, List.drop_left' hlength, hlength, readHeader_header host hp,
      Nat.mod_eq_zero_of_dvd hwhole]
    simp only [Nat.lt_irrefl, ↓reduceIte, bind, Except.bind]
    rfl

end Pieces

end Winnow
