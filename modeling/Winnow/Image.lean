import Winnow.Automaton.Basic
import Winnow.Text.Utf8

/-!
# Images of the table

An image is 256 bytes of header and the words of all cells, plane after plane, four
bytes each in the order of the host. The header holds three tags, a number whose
bytes tell that order, and a title closed by a marker; the rest of it is zero. A
reader swaps the words when the number is not as its own host would write it. The
size of a plane is not recorded, so the reader has to be told the layout.
-/

namespace Winnow

inductive ByteOrder where
  | little
  | big
  deriving DecidableEq, Inhabited, Repr

namespace ByteOrder

def other : ByteOrder → ByteOrder
  | little => big
  | big => little

def arrange : ByteOrder → List UInt8 → List UInt8
  | little, bs => bs
  | big, bs => bs.reverse

def bytes (o : ByteOrder) (w : UInt32) : List UInt8 :=
  o.arrange [w.toUInt8, (w >>> 8).toUInt8, (w >>> 16).toUInt8, (w >>> 24).toUInt8]

def word (o : ByteOrder) (bs : List UInt8) : UInt32 :=
  (o.arrange bs).foldr (fun b w => w <<< 8 ||| b.toUInt32) 0

end ByteOrder

structure Image (l : Layout) where
  title : String
  isNative : Bool
  cells : Array Cell
  deriving DecidableEq

namespace Image

variable {l : Layout}

def headerBytes : Nat := 256

def magic : List UInt8 := Utf8.encode "gg dump:"

def orderTag : List UInt8 := Utf8.encode "endian: "

/-- The number 0x3736353433323130. -/
def probe (o : ByteOrder) : List UInt8 := o.arrange (Utf8.encode "01234567")

def titleTag : List UInt8 := Utf8.encode " title: "

def marker : List UInt8 := [0x04, 0x1a]

def maxTitleBytes : Nat := 222

def beforeMarker? : List UInt8 → Option (List UInt8)
  | [] => none
  | b :: bs => if marker.isPrefixOf (b :: bs) then some [] else (beforeMarker? bs).map (b :: ·)

def header (o : ByteOrder) (title : List UInt8) : List UInt8 :=
  magic ++ orderTag ++ probe o ++ titleTag ++ title ++ marker ++
    List.replicate (maxTitleBytes - title.length) 0

def body (o : ByteOrder) (cells : List Cell) : List UInt8 := cells.flatMap (o.bytes ·.word)

def cellsOf (a : Automaton l) : List Cell := a.planes.toList.flatMap (·.cells.toList)

def write (o : ByteOrder) (a : Automaton l) (title : String) : Except Error (List UInt8) :=
  let t := Utf8.encode title
  if maxTitleBytes < t.length then .error (.titleTooLong t.length maxTitleBytes)
  else if (beforeMarker? t).isSome then
    .error (.invalidImage "title contains the end-of-title marker")
  else .ok (header o t ++ body o (cellsOf a))

/-- What is in a writer after the image is written to it, and what comes of the writing: the
header at once, then one cell after the other. -/
def writeTo (o : ByteOrder) (a : Automaton l) (title : String) (out : List UInt8) :
    List UInt8 × Except Error Unit :=
  let t := Utf8.encode title
  if maxTitleBytes < t.length then (out, .error (.titleTooLong t.length maxTitleBytes))
  else if (beforeMarker? t).isSome then
    (out, .error (.invalidImage "title contains the end-of-title marker"))
  else
    (a.planes.foldl (fun out p => p.cells.foldl (fun out c => out ++ o.bytes c.word) out)
      (out ++ header o t), .ok ())

def readCells (o : ByteOrder) : List UInt8 → List Cell
  | a :: b :: c :: d :: rest => ⟨o.word [a, b, c, d]⟩ :: readCells o rest
  | _ => []

def expect (tag : List UInt8) (missing : String) (bs : List UInt8) :
    Except Error (List UInt8) :=
  if tag.isPrefixOf bs then .ok (bs.drop tag.length) else .error (.invalidImage missing)

def readHeader (host : ByteOrder) (bs : List UInt8) : Except Error (String × Bool) := do
  let bs ← expect magic "missing magic" bs
  let bs ← expect orderTag "missing endian tag" bs
  let isNative := (probe host).isPrefixOf bs
  let bs ← expect titleTag "missing title tag" (bs.drop 8)
  match beforeMarker? bs with
  | none => .error (.invalidImage "unterminated title")
  | some title => return (Utf8.decodeLossy title, isNative)

def read (host : ByteOrder) (l : Layout) (bs : List UInt8) : Except Error (Image l) := do
  let head := bs.take headerBytes
  let body := bs.drop headerBytes
  if head.length < headerBytes then .error (.io .shortRead)
  else
    let (title, isNative) ← readHeader host head
    if body.length % (4 * l.width) = 0 then
      let order := if isNative then host else host.other
      return { title, isNative, cells := (readCells order body).toArray }
    else .error (.invalidImage (toString body.length ++ " body bytes is not a whole number of " ++
      toString l.width ++ "-cell planes"))

def planeCount (i : Image l) : Nat := i.cells.size / l.width

-- Both ends of the slice are products of words, which wrap round.
def plane? (i : Image l) (n : UInt64) : Option (List Cell) :=
  let width : UInt64 := .ofNat l.width
  let start := (n * width).toNat
  let stop := ((n + 1) * width).toNat
  if start ≤ stop ∧ stop ≤ i.cells.size then some (i.cells.extract start stop).toList else none

end Image

end Winnow
