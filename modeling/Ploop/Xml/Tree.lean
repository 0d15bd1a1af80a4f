import Ploop.Snapshot.Descriptor

/-!
# Element trees and numbers

The parts of libxml2 and of the C library that `xml.c` reads a descriptor
with: children by name, the text of an element, and `strtoul`.
-/

namespace Ploop.Xml

/-! ## Trees -/

inductive Tag where
  | disk_Parameters | disk_size | max_delta_size | cylinders | heads | sectors | padding
  | encryption | keyId
  | storageData | volume | parent | snapshotGUID | readOnly
  | storage | start | end_ | blocksize | preallocated | image | guid | type | file
  | snapshots | topGUID | shot | parentGUID | temporary
  | other (name : List Char)
  deriving DecidableEq, Repr

/-- `other` is a comment or some other node that is neither an element nor text. -/
inductive Node where
  | element (tag : Tag) (children : List Node)
  | text (content : List Char)
  | other

namespace Node

def children : Node → List Node
  | element _ l => l
  | _ => []

def isElement : Node → Bool
  | element _ _ => true
  | _ => false

def hasTag (tag : Tag) : Node → Bool
  | element t _ => t = tag
  | _ => false

/-- `find_child_node`, with the nodes that follow it. -/
def childrenFrom (n : Node) (tag : Tag) : List Node := n.children.dropWhile fun c => !c.hasTag tag

def findChildNode (n : Node) (tag : Tag) : Option Node := (n.childrenFrom tag).head?

/-- `seek` -/
def seek (n : Node) : List Tag → Option Node
  | [] => some n
  | tag :: path => (n.findChildNode tag).bind fun c => c.seek path

/-- `get_element_txt` -/
def getElementTxt (n : Node) : Option (List Char) :=
  n.children.findSome? fun
    | text content => some content
    | _ => none

end Node

/-! ## `strtoul` -/

def ulongMax : ℕ := 2 ^ 64 - 1

def isSpace (c : Char) : Bool :=
  c = ' ' || c = '\t' || c = '\n' || c = '\r' || c = '\x0b' || c = '\x0c'

/-- The value of a digit in a base up to 16. -/
def digitValue (c : Char) : ℕ :=
  if '0' ≤ c ∧ c ≤ '9' then c.toNat - '0'.toNat
  else if 'a' ≤ c ∧ c ≤ 'f' then c.toNat - 'a'.toNat + 10
  else if 'A' ≤ c ∧ c ≤ 'F' then c.toNat - 'A'.toNat + 10
  else 16

def isDigitOf (base : ℕ) (c : Char) : Bool := digitValue c < base

def valueOf (base : ℕ) (l : List Char) : ℕ := l.foldl (fun v c => base * v + digitValue c) 0

def takeSign : List Char → Bool × List Char
  | '-' :: s => (true, s)
  | '+' :: s => (false, s)
  | s => (false, s)

/-- The base that 0 stands for, and where its digits begin. -/
def takeBase : List Char → ℕ × List Char
  | '0' :: 'x' :: c :: s => if isDigitOf 16 c then (16, c :: s) else (8, '0' :: 'x' :: c :: s)
  | '0' :: 'X' :: c :: s => if isDigitOf 16 c then (16, c :: s) else (8, '0' :: 'X' :: c :: s)
  | '0' :: s => (8, '0' :: s)
  | s => (10, s)

/-- `strtoul(s, &endptr, 0)`: the value and what `endptr` points to. -/
def strtoul (s : List Char) : ℕ × List Char :=
  let (neg, s₁) := takeSign (s.dropWhile isSpace)
  let (base, s₂) := takeBase s₁
  let digits := s₂.takeWhile (isDigitOf base)
  if digits = [] then (0, s)
  else
    let v := valueOf base digits
    (if ulongMax < v then ulongMax else if neg then (2 ^ 64 - v) % 2 ^ 64 else v,
      s₂.dropWhile (isDigitOf base))

/-- `parse_ul` -/
def parseUl (str : Option (List Char)) : Option ℕ :=
  str.bind fun s => if (strtoul s).2 = [] then some (strtoul s).1 else none

example : parseUl (some "0x1F".toList) = some 31 := by decide

example : parseUl (some " -1".toList) = some ulongMax := by decide

example : parseUl (some "12k".toList) = none := by decide

end Ploop.Xml
