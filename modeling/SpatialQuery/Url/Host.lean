import SpatialQuery.IpAddress
import SpatialQuery.Text.Case
import SpatialQuery.Url.Percent
import SpatialQuery.Url.Punycode

/-!
Hosts of URLs: domains, whose labels are written in ASCII, and addresses.
-/

namespace SpatialQuery.Url.Host

/-! ## Numbers -/

/-- A number in decimal, octal or hexadecimal digits. An empty text after a mark of the base is
zero. -/
def number? (cs : List Char) : Option Nat :=
  let read (base : Nat) (ds : List Char) : Option Nat :=
    (ds.mapM fun c => (Bytes.hexValue? c).filter (· < base)).map fun vs =>
      vs.foldl (fun n d => base * n + d) 0
  match cs with
  | [] => none
  | '0' :: 'x' :: ds | '0' :: 'X' :: ds => read 16 ds
  | '0' :: d :: ds => read 8 (d :: ds)
  | ds => read 10 ds

/-- The parts of a domain. An empty part at the end does not count. -/
def parts (cs : List Char) : List (List Char) :=
  match (cs.splitOn '.').reverse with
  | [] :: rest => rest.reverse
  | ps => ps.reverse

/-- A domain whose last part is a number must be an address. -/
def endsInNumber (cs : List Char) : Bool :=
  match (parts cs).getLast? with
  | some p => (!p.isEmpty && p.all Char.isDigit) || (number? p).isSome
  | none => false

/-- The address of up to four numbers, the last of which takes the places that are left. -/
def address? (cs : List Char) : Option (List Nat) := do
  let ns ← (parts cs).mapM number?
  let last ← ns.getLast?
  let front := ns.dropLast
  if 4 < ns.length || front.any (255 < ·) || Nat.pow 256 (4 - front.length) ≤ last then none
  else return front ++ (List.range (4 - front.length)).reverse.map fun i => last / Nat.pow 256 i % 256

/-! ## Domains -/

/-- Characters that no domain has. -/
def isForbidden (c : Char) : Bool :=
  c.toNat ≤ 0x20 || c.toNat == 0x7F || "%#/:<>?@[\\]^|".toList.contains c

/-- Full stops of other scripts are full stops. -/
def stops : List Char :=
  ['\u3002', '\uFF0E', '\uFF61']

def softHyphen : Char := '\u00AD'

/-- The characters as labels are compared: in lower case, without soft hyphens. -/
def fold (cs : List Char) : List Char :=
  ((cs.filter (· != softHyphen)).map fun c => if stops.contains c then '.' else c).flatMap Text.lowerOf

def labelText (cs : List Char) : List Char :=
  if cs.all Punycode.isAscii then cs else "xn--".toList ++ Punycode.encode cs

/-- The domain in ASCII. -/
def domain? (cs : List Char) : Option (List Char) :=
  let ascii := ['.'].intercalate (((fold cs).splitOn '.').map labelText)
  if ascii.isEmpty || ascii.any isForbidden then none else some ascii

/-- The text of an address of eight groups, for which brackets were read. -/
def bracketed? (cs : List Char) : Option (List Char) :=
  if cs.getLast? == some ']' then
    (IpAddress.readV6? cs.dropLast).map fun gs => '[' :: (IpAddress.v6 gs).text ++ [']']
  else none

/-- Reads the host of a scheme that has domains. -/
def read? (cs : List Char) : Option (List Char) :=
  match cs with
  | '[' :: rest => bracketed? rest
  | _ => do
    let domain ← domain? (← Percent.decode? cs).toList
    if endsInNumber domain then return (IpAddress.v4 (← address? domain)).text
    else return domain

/-- Reads the host of another scheme, whose meaning is not known. -/
def readOther? (cs : List Char) : Option (List Char) :=
  match cs with
  | '[' :: rest => bracketed? rest
  | _ =>
    if cs.any fun c => c.toNat == 0 || "\t\n\r #/:<>?@[\\]^|".toList.contains c then none
    else some (Percent.encode [] cs)

end SpatialQuery.Url.Host
