import Buzz.Lib.Forest
import Buzz.Media.Png

namespace Buzz.Media
set_option autoImplicit true

instance lawfulBytes : LawfulBEq (List UInt8) :=
  inferInstance

inductive VideoError where
  | moovNotAtFront
  | invalidVideo
  | metadataForbidden
  deriving DecidableEq

/-- Why a walk ends early: an error of its own, an addition that does not fit, or no end at all. -/
inductive Halt where
  | error (e : VideoError)
  | overflow
  | outOfFuel
  deriving DecidableEq

/-- A file on disk, of a size that a file can have. -/
structure File where
  bytes : List UInt8
  size_lt : bytes.length < 2 ^ 63

namespace File

def size (file : File) : ℕ := file.bytes.length

/-- Fill a buffer from a position on. -/
def readExact (file : File) (off n : ℕ) : Option (List UInt8) :=
  if off + n ≤ file.size then some ((file.bytes.drop off).take n) else none

end File

/-- A box of a file. -/
structure Atom where
  offset : ℕ
  size : ℕ
  kind : List UInt8

/-- `a + b` in `u64`, where an overflow is a panic. -/
def add64 (a b : ℕ) : Except Halt ℕ :=
  if a + b < 2 ^ 64 then .ok (a + b) else .error .overflow

def maxAtoms : ℕ := 1024

/-- What the scan finds at an offset: nothing it can go on with, a box up to the end, or a box. -/
inductive AtomHeader where
  | stop
  | toEnd (kind : List UInt8)
  | atom (size : ℕ) (kind : List UInt8)

def readAtom (file : File) (offset : ℕ) : AtomHeader :=
  match file.readExact offset 8 with
  | none => .stop
  | some header =>
    let compact := fromBe (header.take 4)
    if compact = 1 then
      match file.readExact (offset + 8) 8 with
      | none => .stop
      | some ext => if fromBe ext < 16 then .stop else .atom (fromBe ext) (header.drop 4)
    else if compact = 0 then .toEnd (header.drop 4)
    else if compact < 8 then .stop
    else .atom compact (header.drop 4)

/-- Whether `mdat` comes without `moov` before it. -/
def mdatFirst (kind : List UInt8) (moovSeen : Bool) : Bool :=
  kind == ascii "mdat" && !moovSeen

/-- The rounds of the scan, with the boxes that it visits. -/
def scan (file : File) : ℕ → ℕ → Bool → List Atom × Except Halt Unit
  | left, offset, moovSeen =>
    if offset < file.size then
      match left with
      | 0 => ([], .error (.error .moovNotAtFront))
      | left + 1 =>
        match readAtom file offset with
        | .stop => ([], .ok ())
        | .toEnd kind =>
          ([⟨offset, file.size - offset, kind⟩],
            if mdatFirst kind moovSeen then .error (.error .moovNotAtFront) else .ok ())
        | .atom size kind =>
          if mdatFirst kind moovSeen then
            ([⟨offset, size, kind⟩], .error (.error .moovNotAtFront))
          else
            match add64 offset size with
            | .error e => ([⟨offset, size, kind⟩], .error e)
            | .ok next =>
              let rest := scan file left next (moovSeen || kind == ascii "moov")
              (⟨offset, size, kind⟩ :: rest.1, rest.2)
    else ([], .ok ())

def checkMoovBeforeMdat (file : File) : List Atom × Except Halt Unit :=
  scan file maxAtoms 0 false

def maxBoxes : ℕ := 100000

def maxBoxDepth : ℕ := 32

def emptyFfmpegUdta : List UInt8 :=
  [0, 0, 0, 0x35] ++ ascii "meta" ++ [0, 0, 0, 0, 0, 0, 0, 0x21] ++ ascii "hdlr" ++
    [0, 0, 0, 0, 0, 0, 0, 0] ++ ascii "mdirappl" ++
    [0, 0, 0, 0, 0, 0, 0, 0, 0, 0, 0, 8] ++ ascii "ilst"

def forbidden : List (List UInt8) :=
  [ascii "meta", ascii "ilst", ascii "keys", ascii "data", ascii "uuid", ascii "xml ",
    ascii "bxml", ascii "loci", [0xa9] ++ ascii "xyz", ascii "name", ascii "chap"]

def containers : List (List UInt8) :=
  [ascii "moov", ascii "trak", ascii "mdia", ascii "minf", ascii "stbl", ascii "edts",
    ascii "dinf", ascii "sinf", ascii "schi"]

def allowed : List (List UInt8) :=
  [ascii "ftyp", ascii "moov", ascii "mdat", ascii "free", ascii "skip", ascii "wide",
    ascii "trak", ascii "mdia", ascii "minf", ascii "stbl", ascii "edts", ascii "dinf",
    ascii "sinf", ascii "schi", ascii "udta", ascii "mvhd", ascii "tkhd", ascii "mdhd",
    ascii "hdlr", ascii "vmhd", ascii "smhd", ascii "dref", ascii "url ", ascii "urn ",
    ascii "stsd", ascii "stts", ascii "stss", ascii "ctts", ascii "stsc", ascii "stsz",
    ascii "stco", ascii "co64", ascii "sgpd", ascii "sbgp", ascii "sdtp", ascii "elst"]

/-- A box with the length of its header. -/
structure Mp4Box extends Atom where
  header : ℕ

/-- The size of a box and of its header. -/
def boxSize (file : File) (off stop compact : ℕ) : Except Halt (ℕ × ℕ) :=
  if compact = 1 then
    match file.readExact (off + 8) 8 with
    | none => .error (.error .invalidVideo)
    | some ext => .ok (fromBe ext, 16)
  else if compact = 0 then .ok (stop - off, 8)
  else .ok (compact, 8)

/-- The checks of the kind of a box, and of the body that `udta` must have. -/
def checkKind (file : File) (off size header : ℕ) (kind : List UInt8) : Except Halt Unit :=
  if kind ∈ forbidden ∨ kind ∉ allowed then .error (.error .metadataForbidden)
  else if kind = ascii "udta" then
    if size ≠ header + emptyFfmpegUdta.length then .error (.error .metadataForbidden)
    else
      match file.readExact (off + header) emptyFfmpegUdta.length with
      | none => .error (.error .invalidVideo)
      | some body =>
        if body ≠ emptyFfmpegUdta then .error (.error .metadataForbidden) else .ok ()
  else .ok ()

def readBox (file : File) (off stop count : ℕ) : Except Halt Mp4Box :=
  if maxBoxes < count ∨ stop - off < 8 then .error (.error .invalidVideo)
  else
    match file.readExact off 8 with
    | none => .error (.error .invalidVideo)
    | some h =>
      match boxSize file off stop (fromBe (h.take 4)) with
      | .error e => .error e
      | .ok (size, header) =>
        if size < header ∨ ¬ (off + size < 2 ^ 64 ∧ off + size ≤ stop) then
          .error (.error .invalidVideo)
        else
          match checkKind file off size header (h.drop 4) with
          | .error e => .error e
          | .ok () => .ok { offset := off, size := size, kind := h.drop 4, header := header }

/-- The rounds of the walk, with the boxes that it visits and their number. -/
def walkBoxes (file : File) : ℕ → ℕ → ℕ → ℕ → ℕ → Forest Mp4Box × Except Halt ℕ
  | 0, _, _, _, _ => (.nil, .error .outOfFuel)
  | fuel + 1, off, stop, count, depth =>
    if maxBoxDepth < depth then (.nil, .error (.error .invalidVideo))
    else if off < stop then
      match readBox file off stop (count + 1) with
      | .error e => (.nil, .error e)
      | .ok box =>
        let children :=
          if box.kind ∈ containers then
            match add64 off box.header, add64 off box.size with
            | .ok inner, .ok outer => walkBoxes file fuel inner outer (count + 1) (depth + 1)
            | _, _ => (.nil, .error .overflow)
          else (.nil, .ok (count + 1))
        match children.2, add64 off box.size with
        | .error e, _ => (.node box children.1 .nil, .error e)
        | .ok _, .error e => (.node box children.1 .nil, .error e)
        | .ok count, .ok next =>
          let rest := walkBoxes file fuel next stop count depth
          (.node box children.1 rest.1, rest.2)
    else (.nil, .ok count)

def validateMp4MetadataFree (file : File) : Forest Mp4Box × Except Halt ℕ :=
  walkBoxes file (file.size + 1) 0 file.size 0 0

end Buzz.Media
