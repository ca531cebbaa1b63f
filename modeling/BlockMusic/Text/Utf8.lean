/-!
# Reading UTF-8

Octets are read as UTF-8, one character after the other. An ill-formed sequence is described by its
place, its length and the reason, and reading goes on behind it; so the same walk serves a strict
reader, which reports the first fault, and a lenient one, which puts a replacement character there.
-/

namespace BlockMusic.Text.Utf8

/-- Why a sequence of octets is no character. -/
inductive Reason where
  | start
  | continuation
  | truncated
  deriving DecidableEq, Repr

def Reason.message : Reason → String
  | .start => "invalid start byte"
  | .continuation => "invalid continuation byte"
  | .truncated => "unexpected end of data"

/-- What stands at the front of some octets: a character or a fault, and the number of octets that
it takes after the first. -/
inductive Front where
  | char (c : Char) (more : Nat)
  | fault (reason : Reason) (more : Nat)

def isContinuation (b : Nat) : Bool := 0x80 ≤ b && b < 0xc0

/-- The least and the greatest second octet after a given first one. -/
def secondBounds (b : Nat) : Nat × Nat :=
  if b = 0xe0 then (0xa0, 0xbf)
  else if b = 0xed then (0x80, 0x9f)
  else if b = 0xf0 then (0x90, 0xbf)
  else if b = 0xf4 then (0x80, 0x8f)
  else (0x80, 0xbf)

/-- The character or fault at the front, given the first octet and the ones after it. -/
def front (a : Nat) (rest : List Nat) : Front :=
  let second (b : Nat) : Bool := (secondBounds a).1 ≤ b && b ≤ (secondBounds a).2
  if a < 0x80 then .char (Char.ofNat a) 0
  else if a < 0xc2 then .fault .start 0
  else if a < 0xe0 then
    match rest with
    | [] => .fault .truncated 0
    | b :: _ =>
      if second b then .char (Char.ofNat ((a - 0xc0) * 0x40 + (b - 0x80))) 1
      else .fault .continuation 0
  else if a < 0xf0 then
    match rest with
    | [] => .fault .truncated 0
    | [b] => if second b then .fault .truncated 1 else .fault .continuation 0
    | b :: c :: _ =>
      if !second b then .fault .continuation 0
      else if !isContinuation c then .fault .continuation 1
      else .char (Char.ofNat ((a - 0xe0) * 0x1000 + (b - 0x80) * 0x40 + (c - 0x80))) 2
  else if a < 0xf5 then
    match rest with
    | [] => .fault .truncated 0
    | [b] => if second b then .fault .truncated 1 else .fault .continuation 0
    | [b, c] =>
      if !second b then .fault .continuation 0
      else if !isContinuation c then .fault .continuation 1
      else .fault .truncated 2
    | b :: c :: d :: _ =>
      if !second b then .fault .continuation 0
      else if !isContinuation c then .fault .continuation 1
      else if !isContinuation d then .fault .continuation 2
      else .char (Char.ofNat
        ((a - 0xf0) * 0x40000 + (b - 0x80) * 0x1000 + (c - 0x80) * 0x40 + (d - 0x80))) 3
  else .fault .start 0

/-- An ill-formed sequence: its first octet, its place, the place behind it, and the reason. -/
structure Fault where
  octet : Nat
  start : Nat
  stop : Nat
  reason : Reason
  deriving DecidableEq, Repr

/-- Names the octet when the sequence is a single one, and the places otherwise. -/
def Fault.message (f : Fault) : String :=
  let digits := Nat.toDigits 16 f.octet
  let shown := String.ofList (List.replicate (2 - digits.length) '0' ++ digits)
  let last := f.stop - 1
  let place :=
    if f.stop = f.start + 1 then s!"byte 0x{shown} in position {f.start}"
    else s!"bytes in position {f.start}-{last}"
  s!"'utf-8' codec can't decode {place}: {f.reason.message}"

/-- Reads octets at place `place`, after passing the `skip` octets that the last item still holds. -/
def piecesFrom (place : Nat) : Nat → List Nat → List (Char ⊕ Fault)
  | _, [] => []
  | skip + 1, _ :: rest => piecesFrom (place + 1) skip rest
  | 0, a :: rest =>
    match front a rest with
    | .char c more => .inl c :: piecesFrom (place + 1) more rest
    | .fault reason more =>
      .inr ⟨a, place, place + 1 + more, reason⟩ :: piecesFrom (place + 1) more rest

/-- The characters and faults of a sequence of octets. -/
def pieces (octets : List Nat) : List (Char ⊕ Fault) := piecesFrom 0 0 octets

/-- The text that the octets hold, or the first fault. -/
def decode (octets : List Nat) : Except Fault String :=
  String.ofList <$> (pieces octets).mapM fun
    | .inl c => .ok c
    | .inr f => .error f

/-- The text that the octets hold, with a replacement character for every fault. -/
def decodeLenient (octets : List Nat) : String :=
  String.ofList <| (pieces octets).map fun
    | .inl c => c
    | .inr _ => Char.ofNat 0xfffd

end BlockMusic.Text.Utf8
