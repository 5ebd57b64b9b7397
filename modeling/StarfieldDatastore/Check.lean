import Mathlib.Data.List.Basic
import Mathlib.Data.List.Infix

/-! Content checks as the code runs them: the reader-based check of a whole body and
the early check of its first bytes. -/
namespace StarfieldDatastore

abbrev Bytes := List UInt8

/-- 64 lowercase hexadecimal characters. -/
def isDigest (text : String) : Bool :=
  text.toList.length == 64 && text.toList.all fun c => c.isDigit || ('a' ≤ c && c ≤ 'f')

/-- The SHA-256 of a byte string in lowercase hexadecimal, as the `sha2` crate prints it. -/
structure Sha256 where
  hex : Bytes → String
  shape : ∀ body, isDigest (hex body) = true

/-- SHA-256 on the empty string and on `abc`. -/
def Sha256.sample : Sha256 where
  hex body :=
    if body = [] then "e3b0c44298fc1c149afbf4c8996fb92427ae41e4649b934ca495991b7852b855"
    else "ba7816bf8f01cfea414140de5dae2223b00361a396177a9cb410ff61f20015ad"
  shape body := by split <;> decide

/-- The declarative content checks; a custom predicate is a pure function of the body. -/
inductive ContentCheck
  | sha256 (digest : String)
  | magic (prefixes : List Bytes) (trimLeadingWhitespace : Bool)
  | minBytes (min : ℕ)
  | notHtml
  | custom (f : Bytes → Except String Unit)
  | all (checks : List ContentCheck)
  | none

structure CheckFailure where
  check : String
  got : String
  deriving DecidableEq, Repr

/-- `u8::is_ascii_whitespace`: space, tab, line feed, form feed, carriage return. -/
def isAsciiWhitespace (b : UInt8) : Bool :=
  b == 0x20 || b == 0x09 || b == 0x0a || b == 0x0c || b == 0x0d

/-- `char::is_whitespace`, the Unicode property White_Space. -/
def isWhitespace (c : Char) : Bool :=
  let n := c.toNat
  (0x09 ≤ n && n ≤ 0x0d) || n == 0x20 || n == 0x85 || n == 0xa0 || n == 0x1680 ||
    (0x2000 ≤ n && n ≤ 0x200a) || n == 0x2028 || n == 0x2029 || n == 0x202f ||
    n == 0x205f || n == 0x3000

namespace Utf8

/-- A continuation byte in the given range; past the end of the input it is missing. -/
def within (lo hi : UInt8) : Bytes → Bool
  | [] => false
  | b :: _ => lo ≤ b && b ≤ hi

def bits (b : UInt8) (mask : ℕ) : ℕ := b.toNat % mask

/-- One scalar value, or U+FFFD for the longest ill-formed prefix, and the bytes after it. -/
def decodeChar (b : UInt8) (rest : Bytes) : Char × Bytes :=
  let bad (n : ℕ) : Char × Bytes := ('\uFFFD',rest.drop n)
  let b1 := rest.getD 0 0
  let b2 := rest.getD 1 0
  let b3 := rest.getD 2 0
  if b < 0x80 then (Char.ofNat b.toNat,rest)
  else if 0xc2 ≤ b && b ≤ 0xdf then
    if within 0x80 0xbf rest then (Char.ofNat (bits b 0x20*64+bits b1 64),rest.drop 1)
    else bad 0
  else if 0xe0 ≤ b && b ≤ 0xef then
    let lo : UInt8 := if b == 0xe0 then 0xa0 else 0x80
    let hi : UInt8 := if b == 0xed then 0x9f else 0xbf
    if within lo hi rest then
      if within 0x80 0xbf (rest.drop 1) then
        (Char.ofNat (bits b 0x10*4096+bits b1 64*64+bits b2 64),rest.drop 2)
      else bad 1
    else bad 0
  else if 0xf0 ≤ b && b ≤ 0xf4 then
    let lo : UInt8 := if b == 0xf0 then 0x90 else 0x80
    let hi : UInt8 := if b == 0xf4 then 0x8f else 0xbf
    if within lo hi rest then
      if within 0x80 0xbf (rest.drop 1) then
        if within 0x80 0xbf (rest.drop 2) then
          (Char.ofNat (bits b 0x08*262144+bits b1 64*4096+bits b2 64*64+bits b3 64),rest.drop 3)
        else bad 2
      else bad 1
    else bad 0
  else bad 0

def decodeLossy : ℕ → Bytes → List Char
  | 0, _ => []
  | _, [] => []
  | n+1, b :: rest => (decodeChar b rest).1 :: decodeLossy n (decodeChar b rest).2

end Utf8

/-- `String::from_utf8_lossy`. Every step consumes a byte, so the length is enough fuel. -/
def fromUtf8Lossy (body : Bytes) : List Char := Utf8.decodeLossy body.length body

/-- `str::contains` on characters. -/
def contains (text needle : List Char) : Bool := text.tails.any needle.isPrefixOf

/-- The HTML test on the bytes read from the start of a body. -/
def looksHtml (head : Bytes) : Bool :=
  let lower := (fromUtf8Lossy head).map Char.toLower
  let text := (lower.dropWhile (· == '\uFEFF')).dropWhile isWhitespace
  "<!doctype html".toList.isPrefixOf text || "<html".toList.isPrefixOf text ||
    "<head".toList.isPrefixOf text || "<body".toList.isPrefixOf text ||
    contains text "<form".toList || contains text "<html".toList

/-- Reads byte by byte up to the first byte that is kept, returning it and the unread rest. -/
def readFirst (trim : Bool) : Bytes → Bytes × Bytes
  | [] => ([],[])
  | b :: rest => if !trim || !isAsciiWhitespace b then ([b],rest) else readFirst trim rest

/-- The bytes a signature is compared with: at most `max`, after the trimmed whitespace. -/
def magicHead (trim : Bool) (max : ℕ) (body : Bytes) : Bytes :=
  let (head,rest) := readFirst trim body
  head ++ rest.take (max-head.length)

namespace ContentCheck

def fail (check got : String) : Except CheckFailure Unit := .error ⟨check,got⟩

mutual

/-- `check_reader`: every check seeks to the start, so a reader is its whole body. -/
def checkReader (H : Sha256) (body : Bytes) (len : ℕ) : ContentCheck → Except CheckFailure Unit
  | .none => .ok ()
  | .all checks => checkReaders H body len checks
  | .minBytes min =>
    if len < min then fail "MinBytes" s!"{len} bytes, expected at least {min}" else .ok ()
  | .sha256 expected =>
    let actual := H.hex body
    if actual = expected then .ok () else fail "Sha256" s!"digest {actual}"
  | .magic prefixes trim =>
    let max := (prefixes.map List.length).foldl max 0
    if prefixes.isEmpty || prefixes.any List.isEmpty then
      fail "Magic" "no nonempty signature configured"
    else if prefixes.any fun p => p.isPrefixOf (magicHead trim max body) then .ok ()
    else fail "Magic" s!"{len} bytes with an unexpected signature"
  | .notHtml =>
    if looksHtml (body.take 8192) then
      fail "NotHtml" "HTML document or login form (body redacted)"
    else .ok ()
  | .custom f =>
    match f body with
    | .ok () => .ok ()
    | .error got => fail "Custom" got

def checkReaders (H : Sha256) (body : Bytes) (len : ℕ) :
    List ContentCheck → Except CheckFailure Unit
  | [] => .ok ()
  | check :: checks => do
    checkReader H body len check
    checkReaders H body len checks

end

def check (H : Sha256) (c : ContentCheck) (bytes : Bytes) : Except CheckFailure Unit :=
  c.checkReader H bytes bytes.length

/-- `check_file` on the content of the file. A top-level digest is compared before the
reader is opened, with the same message. -/
def checkFile (H : Sha256) (c : ContentCheck) (content : Bytes) : Except CheckFailure Unit :=
  match c with
  | .sha256 expected =>
    let actual := H.hex content
    if actual = expected then .ok () else fail "Sha256" s!"digest {actual}"
  | _ => c.checkReader H content content.length

mutual

/-- Rejects a wrong signature or HTML early; inconclusive short prefixes pass. -/
def checkPrefix (H : Sha256) (head : Bytes) : ContentCheck → Except CheckFailure Unit
  | .notHtml => check H .notHtml head
  | .magic prefixes trim =>
    let head := if trim then head.dropWhile isAsciiWhitespace else head
    if prefixes.any fun p => p.isPrefixOf head || head.isPrefixOf p then .ok ()
    else fail "Magic" "unexpected signature (body redacted)"
  | .all checks => checkPrefixes H head checks
  | _ => .ok ()

def checkPrefixes (H : Sha256) (head : Bytes) : List ContentCheck → Except CheckFailure Unit
  | [] => .ok ()
  | check :: checks => do
    checkPrefix H head check
    checkPrefixes H head checks

end

def defaultBinary : ContentCheck := .all [.notHtml,.minBytes 1024]

mutual

/-- Every digest pin in the tree, in order. -/
def pinnedSha256s : ContentCheck → List String
  | .sha256 digest => [digest]
  | .all checks => pinnedSha256ss checks
  | _ => []

def pinnedSha256ss : List ContentCheck → List String
  | [] => []
  | check :: checks => pinnedSha256s check ++ pinnedSha256ss checks

end

mutual

/-- The tree with its digest pins replaced by checks that always pass. -/
def withoutSha256 : ContentCheck → ContentCheck
  | .sha256 _ => .none
  | .all checks => .all (withoutSha256s checks)
  | other => other

def withoutSha256s : List ContentCheck → List ContentCheck
  | [] => []
  | check :: checks => withoutSha256 check :: withoutSha256s checks

end

end ContentCheck
end StarfieldDatastore
