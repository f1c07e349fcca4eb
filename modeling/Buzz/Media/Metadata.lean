import Buzz.Media.Png
import Buzz.Media.Webp
import Buzz.Media.Gif

namespace Buzz.Media
set_option autoImplicit true

/-- Whether an image has only structures that are needed to show it. -/
def validateImageMetadataFree (b : List UInt8) (mime : String) : Except (Fault MediaError) Unit :=
  if mime = "image/jpeg" then validateJpegMetadataFree b
  else if mime = "image/png" then validatePngMetadataFree b
  else if mime = "image/webp" then validateWebpMetadataFree b
  else if mime = "image/gif" then validateGifMetadataFree b
  else .ok ()

/-- A file made of nothing but listed units, each byte in one of them. -/
def AllowListed (b : List UInt8) (mime : String) : Prop :=
  if mime = "image/jpeg" then ∃ us, IsJpeg us b ∧ ∀ u ∈ us, u.Listed
  else if mime = "image/png" then
    ∃ us, IsPng us b ∧ (∀ u ∈ us, u.Listed) ∧ (us.filter PngChunk.isText).length ≤ 1
  else if mime = "image/webp" then ∃ us, IsWebp us b ∧ ∀ u ∈ us, u.Listed
  else if mime = "image/gif" then ∃ us, IsGif us b
  else True

theorem safe_validateImage (b : List UInt8) (mime : String) :
    Safe (validateImageMetadataFree b mime) := by
  rw [validateImageMetadataFree]
  split
  · exact safe_validateJpeg b
  split
  · exact safe_validatePng b
  split
  · exact safe_validateWebp b
  split
  · exact safe_validateGif b
  · exact .ok ()

/-- No walk reads out of bounds, and what they accept is made of listed units, exactly where the file
is neither a JPEG file that has a segment with a reserved marker nor a PNG file that has a critical
chunk of an unknown kind. -/
theorem validateImage_listed_iff (b : List UInt8) :
    (∀ mime, Safe (validateImageMetadataFree b mime) ∧
      (validateImageMetadataFree b mime = .ok () → AllowListed b mime)) ↔
      (∀ us, IsJpeg us b → ∀ u ∈ us, ¬ u.Reserved) ∧
        ∀ us, IsPng us b → ∀ u ∈ us, ¬ u.Unknown := by
  rw [← jpeg_listed_iff b, ← png_listed_iff b]
  constructor
  · intro h
    exact ⟨(h "image/jpeg").2, (h "image/png").2⟩
  · rintro ⟨hjpeg, hpng⟩ mime
    refine ⟨safe_validateImage b mime, ?_⟩
    rw [validateImageMetadataFree, AllowListed]
    split
    · exact hjpeg
    split
    · exact hpng
    split
    · exact isWebp_of_ok
    split
    · exact isGif_of_ok
    · exact fun _ => trivial

/-- A segment that no coding process has, with three bytes in it. -/
def reservedJpeg : List UInt8 :=
  [0xff, 0xd8, 0xff, 0xf0, 0x00, 0x05, 0x67, 0x70, 0x73, 0xff, 0xd9]

def unknownChunk : PngChunk where
  size := [0, 0, 0, 3]
  kind := ascii "GPSX"
  payload := [0x67, 0x70, 0x73]
  crc := [0, 0, 0, 0]

def iendChunk : PngChunk where
  size := [0, 0, 0, 0]
  kind := ascii "IEND"
  payload := []
  crc := [0, 0, 0, 0]

def unknownPng : List UInt8 :=
  PNG_SIGNATURE ++ (unknownChunk.bytes ++ iendChunk.bytes)

/-- Both files are accepted, and neither is made of listed units. -/
theorem validateImage_lets_reserved_pass :
    (validateImageMetadataFree reservedJpeg "image/jpeg" = .ok () ∧
      ¬ AllowListed reservedJpeg "image/jpeg") ∧
    (validateImageMetadataFree unknownPng "image/png" = .ok () ∧
      ¬ AllowListed unknownPng "image/png") := by
  have hjpeg : IsJpeg [.segment 0 0xf0 0x00 0x05 [0x67, 0x70, 0x73], .eoi 0] reservedJpeg := by
    refine ⟨.cons ?_ rfl (.last trivial rfl), rfl⟩
    refine ⟨by decide, rfl, ?_⟩
    exact ⟨fun h => absurd h (by decide), fun h => absurd h (by decide), rfl⟩
  have hpng : IsPng [unknownChunk, iendChunk] unknownPng := by
    refine ⟨.cons ?_ rfl (.last ?_ rfl), rfl⟩
    · exact ⟨⟨rfl, rfl, rfl⟩, rfl, rfl, fun first h => by cases h; decide⟩
    · exact ⟨⟨rfl, rfl, rfl⟩, rfl, rfl, fun first h => by cases h; decide⟩
  refine ⟨⟨?_, fun h => ?_⟩, ⟨?_, fun h => ?_⟩⟩
  · rw [validateImageMetadataFree, if_pos rfl]
    exact (validateJpeg_iff reservedJpeg).mpr ⟨_, hjpeg⟩
  · exact (jpeg_listed_iff reservedJpeg).mp (fun _ => h) _ hjpeg _ (List.mem_cons_self ..) rfl
  · rw [validateImageMetadataFree, if_neg (by decide), if_pos rfl]
    exact (validatePng_iff unknownPng).mpr ⟨_, hpng⟩
  · refine (png_listed_iff unknownPng).mp (fun _ => h) _ hpng _ (List.mem_cons_self ..) ⟨?_, rfl⟩
    intro first h
    cases h
    rfl

end Buzz.Media
