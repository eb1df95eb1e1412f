import Chromium.Net.Base.RegistryControlledDomain

/-!
# Names of the DNS

`net/base/dns_util.cc`: domains between their dotted and their DNS form, and the names of a packet, which may end in a
pointer to another place of it.  `unsigned` has 32 bits.
-/

namespace Chromium.Net.Dns

open Lib

/-! ## Domains -/

/-- `sizeof label`. -/
def maxLabel : ℕ := 63

/-- `sizeof name`. -/
def maxName : ℕ := 255

def addLabel (name label : List UInt8) : Option (List UInt8) :=
  if label = [] then some name
  else if maxName < name.length + label.length + 1 then none
  else some (name ++ UInt8.ofNat label.length :: label)

def fromDotLoop : (chars : List UInt8) → (label name : List UInt8) → Option (List UInt8)
  | [], label, name =>
    (addLabel name label).bind fun name => if maxName < name.length + 1 then none else some (name ++ [0])
  | ch :: chars, label, name =>
    if ch = dot then (addLabel name label).bind fun name => fromDotLoop chars [] name
    else if maxLabel ≤ label.length then none
    else fromDotLoop chars (label ++ [ch]) name

def dnsDomainFromDot (dotted : List UInt8) : Option (List UInt8) :=
  fromDotLoop (dotted.take (dotted.length % 4294967296)) [] []

/-- The loop over the labels; `none` is no return. -/
def toStringLoop (domain : List UInt8) : (fuel i : ℕ) → (ret : List UInt8) → Option (List UInt8)
  | 0, _, _ => none
  | fuel + 1, i, ret =>
    match domain[i]? with
    | none => some ret
    | some n =>
      if n = 0 then some ret
      else if maxLabel < n.toNat then some []
      else
        let ret := if i = 0 then ret else ret ++ [dot]
        if domain.length < (n.toNat + i + 1) % 4294967296 then some []
        else toStringLoop domain fuel ((i + n.toNat + 1) % 4294967296) (ret ++ (domain.drop (i + 1)).take n.toNat)

def dnsDomainToString (domain : List UInt8) : Option (List UInt8) := toStringLoop domain (domain.length + 1) 0 []

/-! ## Names in a packet -/

/-- `DnsResponseBuffer`: a place in the packet, and how much is behind it. -/
structure DnsResponseBuffer where
  packet : List UInt8
  p : ℕ
  len : ℕ
  deriving DecidableEq

/-- Where `DNSName` is: the place of the buffer (`p_`, `len_`), the pointers followed, its own place, and the name, if it is
asked for one. -/
structure NameState where
  buffer : DnsResponseBuffer
  jumps : ℕ
  p : ℕ
  len : ℕ
  name : Option (List UInt8)
  deriving DecidableEq

/-- What a turn of the loop leads to.  A read that is not in the packet is `outside`. -/
inductive NameTurn
  | next (s : NameState)
  | returns (b : Bool) (s : NameState)
  | outside
  deriving DecidableEq

namespace NameState

variable (s : NameState)

/-- The name goes on at `p`.  Before the first pointer the buffer goes there too. -/
def advance (p len : ℕ) : NameState :=
  if s.jumps = 0 then { s with p := p, len := len, buffer := { s.buffer with p := p, len := len } }
  else { s with p := p, len := len }

def append (label : List UInt8) : NameState :=
  { s with name := s.name.map fun name => if name = [] then label else name ++ dot :: label }

/-- A turn of the loop of `DNSName`. -/
def turn : NameTurn :=
  let packet := s.buffer.packet
  if s.len < 1 then .returns false s
  else
    match packet[s.p]? with
    | none => .outside
    | some d =>
      let p := s.p + 1
      let len := s.len - 1
      if d &&& 0xc0 = 0xc0 then
        if 100 < s.jumps then .returns false s
        else if len < 1 then .returns false s
        else
          match packet[p]? with
          | none => .outside
          | some b =>
            let offset := (d.toNat * 256 + b.toNat) &&& 0x3ff
            let s := { s.advance (p + 1) (len - 1) with jumps := s.jumps + 1 }
            if packet.length ≤ offset then .returns false s
            else .next { s with p := offset, len := packet.length - offset }
      else if d &&& 0xc0 = 0 then
        let labelLen := d.toNat
        if len < labelLen then .returns false s
        else if packet.length < p + labelLen then .outside
        else if labelLen = 0 then .returns true (s.advance p len)
        else .next ((s.append ((packet.drop p).take labelLen)).advance (p + labelLen) (len - labelLen))
      else .returns false s

/-- The loop; `none` is no return. -/
def run : (fuel : ℕ) → NameState → Option NameTurn
  | 0, _ => none
  | fuel + 1, s =>
    match s.turn with
    | .next s => run fuel s
    | last => some last

end NameState

/-- `DNSName`, which may be asked for the name. -/
def DnsResponseBuffer.dnsName (buffer : DnsResponseBuffer) (wantsName : Bool) : Option NameTurn :=
  NameState.run (102 * (buffer.packet.length + 1))
    ⟨buffer, 0, buffer.p, buffer.len, if wantsName then some [] else none⟩

end Chromium.Net.Dns
