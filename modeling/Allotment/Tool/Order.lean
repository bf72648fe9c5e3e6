import Allotment.Text.OctetClass
import Allotment.Tool.Basic

/-!
# Lines in order

`sort` brings lines into the order of their keys, and lines with equal keys into the order of their
octets. `uniq` leaves out lines that repeat the one before.
-/

namespace Allotment.Tool

open Text (Octets)

/-- Octets in the order of their numbers; what begins another text comes first. -/
def compareOctets : Octets → Octets → Ordering
  | [], [] => .eq
  | [], _ :: _ => .lt
  | _ :: _, [] => .gt
  | a :: as, b :: bs => (compare a.toNat b.toNat).then (compareOctets as bs)

namespace Sorting

/-- How keys are compared. -/
structure Manner where
  numeric : Bool := false
  general : Bool := false
  human : Bool := false
  version : Bool := false
  reversed : Bool := false
  folded : Bool := false
  dictionary : Bool := false
  skipsBlanks : Bool := false
deriving DecidableEq

def Manner.add (m : Manner) : Char → Manner
  | 'n' => { m with numeric := true }
  | 'g' => { m with general := true }
  | 'h' => { m with human := true }
  | 'V' => { m with version := true }
  | 'r' => { m with reversed := true }
  | 'f' => { m with folded := true }
  | 'd' => { m with dictionary := true }
  | 'b' => { m with skipsBlanks := true }
  | _ => m

/-- A number: a whole part and the digits of a fraction, the last of which is not zero. Zero is not
negative. -/
structure Quantity where
  isNegative : Bool
  whole : Nat
  fraction : Octets

def Quantity.compare (a b : Quantity) : Ordering :=
  let magnitude := (Ord.compare a.whole b.whole).then (compareOctets a.fraction b.fraction)
  match a.isNegative, b.isNegative with
  | false, false => magnitude
  | true, true => magnitude.swap
  | true, false => .lt
  | false, true => .gt

def number (cs : Octets) : Quantity × Octets :=
  let cs := cs.dropWhile Octets.isBlank
  let (isNegative, cs) := match cs with
    | '-' :: ds => (true, ds)
    | _ => (false, cs)
  let (whole, rest) := Text.Radix.split 10 cs
  let (fraction, rest) := match rest with
    | '.' :: ds => Text.Radix.split 10 ds
    | _ => ([], rest)
  let fraction := (fraction.reverse.dropWhile (· == '0')).reverse
  let n := Text.Radix.value 10 whole
  (⟨isNegative && !(n == 0 && fraction.isEmpty), n, fraction⟩, rest)

/-- The power of a thousand that the letter after a number names, negative for a negative number. -/
def power (n : Quantity) (rest : Octets) : Int :=
  let power := match rest with
    | c :: _ => (['K', 'M', 'G', 'T', 'P', 'E', 'Z', 'Y'].findIdx? (· == c.toUpper)).elim 0 (· + 1)
    | [] => 0
  if n.whole = 0 ∧ n.fraction.isEmpty then 0 else if n.isNegative then -power else power

/-- The rank of an octet that is no digit: letters come before all others. -/
def rank (c : Char) : Nat :=
  if c = '~' then 0 else if c.isDigit then 1 else if c.isAlpha then c.toNat else c.toNat + 256

def compareVersions : (fuel : Nat) → Octets → Octets → Ordering
  | 0, a, b => compareOctets a b
  | n + 1, a, b =>
    match a, b with
    | [], [] => .eq
    | [], _ :: _ => .lt
    | _ :: _, [] => .gt
    | c :: as, d :: bs =>
      if c.isDigit ∧ d.isDigit then
        let (ds, as) := Text.Radix.split 10 a
        let (es, bs) := Text.Radix.split 10 b
        (compare (Text.Radix.value 10 ds) (Text.Radix.value 10 es)).then
          (compareVersions n as bs)
      else (compare (rank c) (rank d)).then (compareVersions n as bs)

/-- What a key counts for. -/
inductive Weight where
  /-- A number times a power of a thousand. -/
  | number (power : Int) (n : Quantity)
  | version (cs : Octets)
  | text (cs : Octets)

def Weight.compare : Weight → Weight → Ordering
  | number p m, number q n => (Ord.compare p q).then (m.compare n)
  | version a, version b => compareVersions (a.length + b.length) a b
  | text a, text b => compareOctets a b
  | _, _ => .eq

def Manner.weigh (m : Manner) (cs : Octets) : Weight :=
  if m.numeric ∨ m.general then .number 0 (Sorting.number cs).1
  else if m.human then
    let (n, rest) := Sorting.number cs
    .number (power n rest) n
  else if m.version then .version cs
  else
    let cs := if m.dictionary then cs.filter fun c => c.isAlphanum || Octets.isBlank c else cs
    .text (if m.folded then cs.map Char.toUpper else cs)

/-- A place in a line: a field, counted from one, and a character in it, or the end of the field. -/
structure Place where
  field : Nat
  character : Nat
  skipsBlanks : Bool

/-- A key: the part of a line from one place to another, or to its end. -/
structure Key where
  first : Place
  last : Option Place
  manner : Option Manner

def place? (cs : Octets) : Option (Place × Octets × Octets) := do
  let (field, rest) ← Text.Radix.read? 10 cs
  let (character, rest) ← match rest with
    | '.' :: ds => Text.Radix.read? 10 ds
    | _ => some (0, rest)
  let letters := rest.takeWhile Char.isAlpha
  return (⟨field, character, letters.contains 'b'⟩, letters, rest.drop letters.length)

def key? (cs : Octets) : Option Key := do
  let (first, letters, rest) ← place? cs
  let (last, more) ← match rest with
    | [] => some (none, [])
    | ',' :: rest => do
      let (last, more, rest) ← place? rest
      if rest.isEmpty then some (some last, more) else none
    | _ => none
  if first.field = 0 then none
  else
    let all := letters ++ more
    return ⟨first, last, if all.isEmpty then none else some (all.foldl Manner.add {})⟩

/-- The fields of a line, each with the separator or the blanks before it. -/
def fields (separator : Option Char) (line : Octets) : List Octets :=
  match separator with
  | some c =>
    match Octets.splitOn c line with
    | f :: fs => f :: fs.map (c :: ·)
    | [] => []
  | none => blankFields (line.length + 1) line
where
  /-- Fields that begin with their blanks. -/
  blankFields : (n : Nat) → Octets → List Octets
    | 0, _ => []
    | _, [] => []
    | n + 1, cs =>
      let blanks := cs.takeWhile Octets.isBlank
      let rest := cs.drop blanks.length
      let body := rest.takeWhile fun c => !Octets.isBlank c
      (blanks ++ body) :: blankFields n (rest.drop body.length)

def Key.of (separator : Option Char) (skipsBlanks : Bool) (k : Key) (line : Octets) : Octets :=
  let fs := fields separator line
  let offset (field : Nat) : Nat := ((fs.take field).map List.length).foldl (· + ·) 0
  let blanksAt (start : Nat) : Nat := ((line.drop start).takeWhile Octets.isBlank).length
  let start := offset (k.first.field - 1) +
    (if separator.isSome ∧ 1 < k.first.field then 1 else 0)
  let start := start + (if k.first.skipsBlanks || skipsBlanks then blanksAt start else 0)
  let start := start + (k.first.character - 1)
  let stop := match k.last with
    | none => line.length
    | some p =>
      if p.character = 0 then offset p.field
      else
        let s := offset (p.field - 1) + (if separator.isSome ∧ 1 < p.field then 1 else 0)
        s + (if p.skipsBlanks || skipsBlanks then blanksAt s else 0) + p.character
  (line.take stop).drop start

/-- What lines are sorted by. -/
structure Rule where
  separator : Option Char
  keys : List Key
  manner : Manner
  /-- Lines with equal keys keep their order. -/
  isStable : Bool

/-- What the keys of a line count for, and whether the greater one comes first. -/
def Rule.weights (r : Rule) (line : Octets) : List (Weight × Bool) :=
  if r.keys.isEmpty then
    [(r.manner.weigh (if r.manner.skipsBlanks then line.dropWhile Octets.isBlank else line),
      r.manner.reversed)]
  else
    r.keys.map fun k =>
      let m := k.manner.getD r.manner
      (m.weigh (k.of r.separator m.skipsBlanks line), m.reversed)

/-- Compares what the keys of two lines count for, one after another. -/
def compareWeights (a b : List (Weight × Bool)) : Ordering :=
  (a.zip b).foldl (fun order (x, y) =>
    order.then (if x.2 then (x.1.compare y.1).swap else x.1.compare y.1)) .eq

def Rule.compare (r : Rule) (a b : Octets × List (Weight × Bool)) : Ordering :=
  (compareWeights a.2 b.2).then <|
    if r.isStable then .eq
    else if r.manner.reversed then (compareOctets a.1 b.1).swap else compareOctets a.1 b.1

def Rule.weighed (r : Rule) (ls : List Octets) : List (Octets × List (Weight × Bool)) :=
  ls.map fun l => (l, r.weights l)

def Rule.sort (r : Rule) (ls : List Octets) : List Octets :=
  ((r.weighed ls).mergeSort fun a b => r.compare a b != .gt).map (·.1)

def Rule.distinct (r : Rule) (ls : List Octets) : List Octets :=
  go (r.weighed ls)
where
  /-- The same for lines with what their keys count for. -/
  go : List (Octets × List (Weight × Bool)) → List Octets
    | a :: b :: ls =>
      if compareWeights a.2 b.2 = .eq then go (a :: ls) else a.1 :: go (b :: ls)
    | ls => ls.map (·.1)

def tool : Tool := fun s => Attempt.settle do
  let o ← s.options
    { flags := "nghVrfdbiMRuscCmz", valued := "kto", misuse := 2
      words := [("numeric-sort", 'n'), ("general-numeric-sort", 'g'), ("human-numeric-sort", 'h'),
        ("version-sort", 'V'), ("reverse", 'r'), ("ignore-case", 'f'), ("dictionary-order", 'd'),
        ("ignore-leading-blanks", 'b'), ("unique", 'u'), ("stable", 's'), ("check", 'c'),
        ("key", 'k'), ("field-separator", 't'), ("output", 'o')] }
  let sources := s.sources o.operands fun e path => "cannot read: ".toList ++ e.message path
  if ¬sources.messages.isEmpty then
    throw { messages := sources.messages.take 1, status := 2 }
  let keys ← (o.given.filter (·.1 == 'k')).mapM fun (_, k) =>
    match key? k with
    | some k => .ok k
    | none => .error { messages := ["invalid field specification ".toList ++ quoted k]
                       status := 2 }
  let separator := (o.value? 't').bind fun t =>
    if t = ['\\', '0'] then some '\x00' else t.head?
  let rule : Rule :=
    { separator, keys
      manner := o.given.foldl (fun m g => m.add g.1) {}
      isStable := o.has 's' || o.has 'u' }
  let ls := sources.contents.flatMap fun (_, text) => text.lines
  if o.has 'c' ∨ o.has 'C' then
    let weighed := rule.weighed ls
    let isSorted := (weighed.zip weighed.tail).all fun (a, b) =>
      let order := rule.compare a b
      order == .lt || order == .eq && !o.has 'u'
    return { sources.outcome [] with status := if isSorted then 0 else 1, isPrompt := false }
  let sorted := rule.sort ls
  let sorted := if o.has 'u' then rule.distinct sorted else sorted
  let text := Octets.unlines sorted
  match o.value? 'o' with
  | some path =>
    return { sources.outcome [] with written := some (s.disk.write path text), isPrompt := false }
  | none => return { sources.outcome text with isPrompt := false }

end Sorting

namespace Uniq

/-- Lines in groups of those in a row that count as equal: the first one and how many there are. -/
def groups (same : Octets → Octets → Bool) : List Octets → List (Octets × Nat)
  | [] => []
  | l :: ls =>
    match groups same ls with
    | (m, n) :: gs => if same l m then (l, n + 1) :: gs else (l, 1) :: (m, n) :: gs
    | [] => [(l, 1)]

def dropFields : Nat → Octets → Octets
  | 0, cs => cs
  | n + 1, cs =>
    dropFields n ((cs.dropWhile Octets.isBlank).dropWhile fun c => !Octets.isBlank c)

def count (o : Options) (c : Char) : Option Nat :=
  (o.value? c).bind natural?

def tool : Tool := fun s => Attempt.settle do
  let o ← s.options
    { flags := "cduiDz", valued := "fsw"
      words := [("count", 'c'), ("repeated", 'd'), ("unique", 'u'), ("ignore-case", 'i'),
        ("skip-fields", 'f'), ("skip-chars", 's'), ("check-chars", 'w'), ("all-repeated", 'D')] }
  let sources := s.sources (o.operands.take 1)
  let compared (l : Octets) : Octets :=
    let l := (dropFields ((count o 'f').getD 0) l).drop ((count o 's').getD 0)
    let l := match count o 'w' with
      | some n => l.take n
      | none => l
    if o.has 'i' then l.map Char.toLower else l
  let same (a b : Octets) : Bool := compared a == compared b
  let isShown (n : Nat) : Bool :=
    !((o.has 'd' || o.has 'D') && n == 1) && !(o.has 'u' && n != 1)
  let ls := sources.text.lines
  let shown := (groups same ls).filter fun (_, n) => isShown n
  let text := shown.flatMap fun (l, n) =>
    let lead := if o.has 'c' then padLeft 7 (Octets.ofNat n) ++ [' '] else []
    (List.replicate (if o.has 'D' then n else 1) (lead ++ l ++ ['\n'])).flatten
  if sources.messages.isEmpty then
    match o.operands with
    | [_, path] => return { sources.outcome [] with written := some (s.disk.write path text) }
    | _ => return sources.outcome text
  else return sources.outcome []

end Uniq

end Allotment.Tool
