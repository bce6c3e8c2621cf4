import ArgusBackend.Library.Breadth

/-!
# The phrase automaton

All phrases are found in one pass over a text.  The phrases are put into a trie, the longest proper
suffix of each node is found level by level, the nodes are flattened into vectors, and the matches
that end in a node are copied along its suffixes.  The counts of a node are kept in 16 bits, its
number and places in 32; here only the counts wrap.  A loop whose fuel runs out gives `none`.

* `Scratch.insert`, `Scratch.setFails`, `flatten`, `putOutputs` : the steps of `build`;
* `PhraseAutomaton.match_` : the pass over the text;
* `naive` : the plain search.
-/

namespace ArgusBackend

namespace TextMatch

/-- A text. -/
abbrev Bytes := List UInt8

/-- The classes of the patterns. -/
inductive PatternClass where
  | entity | predicate | kinship | possessive | connector | stopword | firstPerson
  deriving DecidableEq, Repr

/-- A pattern as it is given to `build`. -/
structure PatternRef where
  classId : PatternClass
  payloadId : ℕ
  text : Bytes

/-- Where a pattern was found. -/
structure Match where
  patternIndex : ℕ
  begin : ℕ
  end_ : ℕ
  deriving DecidableEq, Repr

/-- What is kept of a pattern. -/
structure Pattern where
  classId : PatternClass
  length : ℕ
  payloadId : ℕ
  deriving DecidableEq, Repr

/-- The node where every text begins. -/
def kRoot : ℕ := 0

/-- The most patterns that are taken. -/
def kMaxPatterns : ℕ := 65534

/-- A character of a word. -/
def isWordChar (c : UInt8) : Bool :=
  (0x61 ≤ c && c ≤ 0x7a) || (0x30 ≤ c && c ≤ 0x39) || c = 0x5f

/-- A character that a match may not be cut from. -/
def isSpanEdge (c : UInt8) : Bool := isWordChar c || c ≥ 0x80

/-- The children of a node, sorted by their bytes. -/
abbrev Children := List (UInt8 × ℕ)

/-- The child by a byte. -/
def find (children : Children) (c : UInt8) : Option ℕ :=
  (children.find? (·.1 = c)).map (·.2)

/-- A child at its place in the order of the bytes. -/
def insertChild (c : UInt8) (child : ℕ) : Children → Children
  | [] => [(c, child)]
  | (d, n) :: rest =>
    if c < d then (c, child) :: (d, n) :: rest else (d, n) :: insertChild c child rest

/-- The nodes of the trie, by their numbers below `size`. -/
structure Scratch where
  size : ℕ := 1
  children : ℕ → Children := fun _ => []
  outputs : ℕ → List ℕ := fun _ => []
  fail : ℕ → ℕ := fun _ => kRoot

namespace Scratch

/-- One byte further down, where no child is the root. -/
def descend (s : Scratch × ℕ) (c : UInt8) : Scratch × ℕ :=
  match find (s.1.children s.2) c with
  | some child => (s.1, child)
  | none =>
    ({ s.1 with
        size := s.1.size + 1
        children := Function.update s.1.children s.2
          (insertChild c s.1.size (s.1.children s.2)) }, s.1.size)

/-- A pattern goes into the trie, unless it is empty. -/
def insert (s : Scratch × List Pattern) (ref : PatternRef) : Scratch × List Pattern :=
  if ref.text = [] then s
  else
    let (scratch, node) := ref.text.foldl descend (s.1, kRoot)
    -- the nodes of a text that is too long stay, without an output
    if ref.text.length ≥ 65536 then (scratch, s.2)
    else
      ({ scratch with
          outputs := Function.update scratch.outputs node
            (scratch.outputs node ++ [s.2.length]) },
        s.2 ++ [⟨ref.classId, ref.text.length % 65536, ref.payloadId⟩])

/-- Along the suffixes of a node to one that has a child for the byte, and to that child. -/
def climb (s : Scratch) (c : UInt8) : ℕ → ℕ → Option ℕ
  | 0, _ => none
  | fuel + 1, f =>
    if f = kRoot then some kRoot
    else
      match find (s.children f) c with
      | some child => some child
      | none => climb s c fuel (s.fail f)

/-- Where the search goes on when the child by a byte does not. -/
def failFor (s : Scratch) (node : ℕ) (c : UInt8) : Option ℕ :=
  (s.climb c s.size (s.fail node)).map fun f =>
    -- the root itself is tried behind the loop
    if f = kRoot then (find (s.children kRoot) c).getD kRoot else f

/-- The fail link of a child. -/
def setFail (node : ℕ) (s : Scratch) (entry : UInt8 × ℕ) : Option Scratch :=
  (s.failFor node entry.1).map fun f => { s with fail := Function.update s.fail entry.2 f }

/-- The fail links of the children of a node. -/
def setFails (s : Scratch) (node : ℕ) : Option Scratch :=
  (s.children node).foldlM (setFail node) s

/-- The children of a node. -/
def childNodes (s : Scratch) (node : ℕ) : List ℕ := (s.children node).map (·.2)

/-- All fail links, level by level. -/
def link (s : Scratch) : Option Scratch :=
  Breadth.bfs s.childNodes setFails s.size (s.childNodes kRoot)
    { s with fail := (s.childNodes kRoot).foldl (fun fail n =>
        Function.update fail n kRoot) s.fail }

end Scratch

/-- A node of the finished automaton: its part of the two tables and its fail link. -/
structure Node where
  transStart : ℕ := 0
  outStart : ℕ := 0
  fail : ℕ := 0
  transCount : ℕ := 0
  outCount : ℕ := 0

/-- The finished automaton, with its tables of transitions and outputs. -/
structure PhraseAutomaton where
  nodes : ℕ → Node := fun _ => {}
  transByte : Bytes := []
  transNext : List ℕ := []
  output : List ℕ := []
  patterns : List Pattern := []

/-- A node is written to the tables. -/
def flattenNode (s : Scratch) (out : PhraseAutomaton) (i : ℕ) : PhraseAutomaton :=
  { out with
    nodes := Function.update out.nodes i
      { fail := s.fail i
        transStart := out.transByte.length
        transCount := (s.children i).length % 65536 }
    transByte := out.transByte ++ (s.children i).map (·.1)
    transNext := out.transNext ++ (s.children i).map (·.2) }

/-- All nodes are written to the tables. -/
def flatten (s : Scratch) (out : PhraseAutomaton) : PhraseAutomaton :=
  (List.range s.size).foldl (flattenNode s) out

/-- The outputs of a node: its own, and those of its longest proper suffix, copied one by one. -/
def putOutputs (s : Scratch) (out : PhraseAutomaton) (node : ℕ) : PhraseAutomaton :=
  let n := { out.nodes node with outStart := out.output.length }
  let nodes := Function.update out.nodes node n
  let own := out.output ++ s.outputs node
  let fn := nodes n.fail
  let copied :=
    -- each entry is read from the vector that the ones before it were put to
    if n.fail ≠ kRoot then
      (List.range fn.outCount).foldl (fun o i => o ++ [o.getD (fn.outStart + i) 0]) own
    else own
  { out with
    output := copied
    nodes := Function.update nodes node
      { n with outCount := (copied.length - n.outStart) % 65536 } }

/-- `build` -/
def build (refs : List PatternRef) : Option PhraseAutomaton :=
  if refs = [] ∨ refs.length > kMaxPatterns then some {}
  else
    let (scratch, patterns) := refs.foldl Scratch.insert ({}, [])
    scratch.link.bind fun s =>
      Breadth.bfs s.childNodes (fun out node => some (putOutputs s out node)) s.size [kRoot]
        (flatten s { patterns := patterns })

namespace PhraseAutomaton

/-- `std::lower_bound`: the first place whose byte is not less. -/
def lowerBound (bytes : Bytes) (c : UInt8) : ℕ := bytes.findIdx fun b => !(b < c)

/-- The transition of a node by a byte. -/
def transition (a : PhraseAutomaton) (state : ℕ) (c : UInt8) : Option ℕ :=
  let node := a.nodes state
  let bytes := (a.transByte.drop node.transStart).take node.transCount
  let it := lowerBound bytes c
  if it < bytes.length ∧ bytes.getD it 0 = c then some (a.transNext.getD (node.transStart + it) 0)
  else none

/-- Along the suffixes of a state to one that has a transition, or to the root. -/
def settle (a : PhraseAutomaton) (c : UInt8) : ℕ → ℕ → Option ℕ
  | 0, _ => none
  | fuel + 1, state =>
    if state = kRoot then some kRoot
    else if (a.transition state c).isSome then some state
    else settle a c fuel (a.nodes state).fail

/-- The state after a byte, by way of the fail links. -/
def advance (a : PhraseAutomaton) (fuel state : ℕ) (c : UInt8) : Option ℕ :=
  (a.settle c fuel state).map fun state => (a.transition state c).getD kRoot

/-- The match of a pattern that ends before `end_`, if it stands alone there. -/
def accept (text : Bytes) (end_ length patternIndex : ℕ) : Option Match :=
  let begin := end_ - length
  if begin > 0 ∧ isWordChar (text.getD (begin - 1) 0) then none
  else if end_ < text.length ∧ isWordChar (text.getD end_ 0) then none
  else if !isSpanEdge (text.getD begin 0) ∨ !isSpanEdge (text.getD (end_ - 1) 0) then none
  else some ⟨patternIndex, begin, end_⟩

/-- The matches that end at a position. -/
def itemsAt (a : PhraseAutomaton) (text : Bytes) (pos state : ℕ) : List Match :=
  let cur := a.nodes state
  (List.range cur.outCount).filterMap fun k =>
    let patternIndex := a.output.getD (cur.outStart + k) 0
    accept text (pos + 1) ((a.patterns.map (·.length)).getD patternIndex 0) patternIndex

/-- One byte of the text.  The state before it stands for at most `pos` bytes, so that the root is
among the first `pos + 1` of its suffixes. -/
def matchStep (a : PhraseAutomaton) (text : Bytes) (s : ℕ × List Match) (pos : ℕ) :
    Option (ℕ × List Match) :=
  (a.advance (pos + 1) s.1 (text.getD pos 0)).map fun state =>
    (state, s.2 ++ a.itemsAt text pos state)

/-- `match` -/
def match_ (a : PhraseAutomaton) (text : Bytes) : Option (List Match) :=
  ((List.range text.length).foldlM (a.matchStep text) (kRoot, [])).map (·.2)

end PhraseAutomaton

/-! ### The plain search -/

/-- The patterns that can be found. -/
def keptRefs (refs : List PatternRef) : List PatternRef :=
  refs.filter fun ref => ref.text ≠ [] ∧ ref.text.length < 65536

/-- The texts of the patterns that are kept. -/
def keptTexts (refs : List PatternRef) : List Bytes := (keptRefs refs).map (·.text)

/-- What is kept of them. -/
def keptPatterns (refs : List PatternRef) : List Pattern :=
  (keptRefs refs).map fun ref => ⟨ref.classId, ref.text.length, ref.payloadId⟩

/-- The patterns with this text, in their order. -/
def indices (kept : List Bytes) (w : Bytes) : List ℕ :=
  (List.range kept.length).filter fun k => kept.getD k [] = w

/-- The kept patterns that stand alone and end before `pos + 1`, the longer ones first, and equal
patterns in their order. -/
def naiveAt (kept : List Bytes) (text : Bytes) (pos : ℕ) : List Match :=
  (text.take (pos + 1)).tails.flatMap fun w =>
    (indices kept w).filterMap fun k => PhraseAutomaton.accept text (pos + 1) w.length k

/-- The matches of a text in the order in which they end. -/
def naive (kept : List Bytes) (text : Bytes) : List Match :=
  (List.range text.length).flatMap (naiveAt kept text)

/-- A kept pattern occurs in the text, and stands alone there. -/
structure Stands (kept : List Bytes) (text : Bytes) (m : Match) : Prop where
  known : m.patternIndex < kept.length
  length : m.begin + (kept.getD m.patternIndex []).length = m.end_
  inside : m.end_ ≤ text.length
  occurs : (text.drop m.begin).take (kept.getD m.patternIndex []).length =
    kept.getD m.patternIndex []
  before : 0 < m.begin → isWordChar (text.getD (m.begin - 1) 0) = false
  after : m.end_ < text.length → isWordChar (text.getD m.end_ 0) = false
  edges : isSpanEdge (text.getD m.begin 0) = true ∧ isSpanEdge (text.getD (m.end_ - 1) 0) = true

/-- By the end, the longer ones first, and equal patterns as they were given. -/
def Precedes (m m' : Match) : Prop :=
  m.end_ < m'.end_ ∨ m.end_ = m'.end_ ∧
    (m.begin < m'.begin ∨ m.begin = m'.begin ∧ m.patternIndex < m'.patternIndex)

end TextMatch

end ArgusBackend
