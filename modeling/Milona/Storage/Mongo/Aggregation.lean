import Mathlib.Data.List.Basic

/-!
# Aggregations over the edge documents

The stages that a graph traversal sends to the database, and what the database
documents of them.  A string in a `$documents` stage is an expression: it names
a system variable if it begins with `$$`, a field of the current document if it
begins with `$`, and stands for itself only otherwise.  No document is at hand
where the stage runs, so there a field path is an error.
-/

namespace Milona.Storage.Mongo

structure EdgeDocument where
  tenantId : String
  fromNode : String
  toNode : String
  relation : String
  deriving DecidableEq, Repr

/-- A field by its name in the database. -/
def EdgeDocument.get (doc : EdgeDocument) : String → Option String
  | "tenant_id" => some doc.tenantId
  | "from" => some doc.fromNode
  | "to" => some doc.toNode
  | "relation" => some doc.relation
  | _ => none

/-! ## Expressions -/

/-- What an expression evaluates to; `other` is any value that equals no text. -/
inductive Value where
  | text (text : String)
  | array (elements : List Value)
  | other

namespace Value

def text? : Value → Option String
  | .text content => some content
  | .array _ | .other => none

/-- The texts that a `$graphLookup` starts from: every element of an array is a start. -/
def starts : Value → List String
  | .array elements => elements.filterMap text?
  | .text content => [content]
  | .other => []

end Value

inductive Expression where
  | literal (text : String)
  | fieldPath (path : String)
  | systemVariable (name : String)
  deriving DecidableEq, Repr

namespace Expression

def read (text : String) : Expression :=
  match text.toList with
  | '$' :: '$' :: name => .systemVariable (.ofList name)
  | '$' :: path => .fieldPath (.ofList path)
  | _ => .literal text

/-- The value beside the given fields of a document, or without a document. -/
def evaluate (systemVariable : String → Option Value)
    (fields : Option (List (String × Value))) : Expression → Option Value
  | .literal text => some (.text text)
  | .fieldPath path => fields.map fun fields => (fields.lookup path).getD .other
  | .systemVariable name => systemVariable name

theorem evaluate_fieldPath (systemVariable : String → Option Value)
    (fields : List (String × Value)) (path : String) :
    (fieldPath path).evaluate systemVariable (some fields) =
      some ((fields.lookup path).getD .other) := rfl

private theorem read_of_ne {text : String} (h : text.toList.head? ≠ some '$') :
    read text = .literal text := by
  unfold read
  split
  next hdollars => simp [hdollars] at h
  next hdollar => simp [hdollar] at h
  next => rfl

private theorem read_variable (name : String) :
    read ("$$" ++ name) = .systemVariable name := by
  have hchars : ("$$" ++ name).toList = '$' :: '$' :: name.toList := by
    rw [String.toList_append]
    rfl
  rw [read, hchars]
  exact congrArg systemVariable String.ofList_toList

/-- Where no document is at hand, only plain text and system variables have values. -/
theorem evaluate_read_eq_some_iff {systemVariable : String → Option Value}
    {text : String} {value : Value} :
    (read text).evaluate systemVariable none = some value ↔
      (text.toList.head? ≠ some '$' ∧ value = .text text) ∨
        ∃ name, text = "$$" ++ name ∧ systemVariable name = some value := by
  constructor
  · intro h
    unfold read at h
    split at h
    next name hchars =>
      refine .inr ⟨.ofList name, ?_, h⟩
      rw [← String.toList_inj]
      simp [hchars]
    next => cases h
    next hdollars hdollar =>
      refine .inl ⟨fun hhead => ?_, (Option.some.inj h).symm⟩
      obtain ⟨path, hpath⟩ := List.head?_eq_some_iff.mp hhead
      exact hdollar path hpath
  · rintro (⟨hhead, rfl⟩ | ⟨name, rfl, hvalue⟩)
    · rw [read_of_ne hhead]
      rfl
    · rw [read_variable]
      exact hvalue

end Expression

/-! ## Stages -/

structure GraphLookup where
  startWith : String
  connectFromField : String
  connectToField : String
  asField : String
  maxDepth : Int
  restrictSearchWithMatch : List (String × String)

inductive Stage where
  | documents (documents : List (List (String × String)))
  | graphLookup (request : GraphLookup)
  | unwind (path : String)
  | replaceRoot (newRoot : String)

namespace GraphLookup

/-- The texts that a lookup starts from at a seed; `none` if an expression is an error. -/
def starts (request : GraphLookup) (systemVariable : String → Option Value)
    (seed : List (String × String)) : Option (List String) := do
  let fields ← seed.mapM fun (name, text) => do
    let value ← (Expression.read text).evaluate systemVariable none
    return (name, value)
  let value ← (Expression.read request.startWith).evaluate systemVariable (some fields)
  return value.starts

def Matches (request : GraphLookup) (doc : EdgeDocument) : Prop :=
  ∀ field ∈ request.restrictSearchWithMatch, doc.get field.1 = some field.2

instance (request : GraphLookup) (doc : EdgeDocument) :
    Decidable (request.Matches doc) :=
  inferInstanceAs (Decidable (∀ field ∈ _, _))

/-- A matching document met at the given recursion depth. -/
inductive Reached (request : GraphLookup) (starts : List String)
    (docs : List EdgeDocument) : Nat → EdgeDocument → Prop where
  | seed {doc : EdgeDocument} {start : String} : doc ∈ docs →
      request.Matches doc → start ∈ starts →
      doc.get request.connectToField = some start →
      Reached request starts docs 0 doc
  | hop {depth : Nat} {previous doc : EdgeDocument} {value : String} :
      Reached request starts docs depth previous →
      previous.get request.connectFromField = some value →
      doc ∈ docs → request.Matches doc →
      doc.get request.connectToField = some value →
      Reached request starts docs (depth + 1) doc

def Selects (request : GraphLookup) (starts : List String)
    (docs : List EdgeDocument) (doc : EdgeDocument) : Prop :=
  ∃ depth : Nat, (depth : Int) ≤ request.maxDepth ∧
    request.Reached starts docs depth doc

/-! ## Computing what a lookup selects -/

def isSeed (request : GraphLookup) (starts : List String)
    (doc : EdgeDocument) : Bool :=
  starts.any fun start => doc.get request.connectToField = some start

def follows (request : GraphLookup) (previous doc : EdgeDocument) : Bool :=
  (doc.get request.connectToField).isSome &&
    previous.get request.connectFromField = doc.get request.connectToField

def reachedWithin (request : GraphLookup) (starts : List String)
    (docs : List EdgeDocument) : Nat → List EdgeDocument
  | 0 => docs.filter fun doc =>
      decide (request.Matches doc) && request.isSeed starts doc
  | limit + 1 =>
      let nearer := reachedWithin request starts docs limit
      docs.filter fun doc => decide (request.Matches doc) &&
        (request.isSeed starts doc ||
          nearer.any fun previous => request.follows previous doc)

theorem mem_reachedWithin {request : GraphLookup} {starts : List String}
    {docs : List EdgeDocument} {limit : Nat} {doc : EdgeDocument} :
    doc ∈ request.reachedWithin starts docs limit ↔
      ∃ depth ≤ limit, request.Reached starts docs depth doc := by
  induction limit generalizing doc with
  | zero =>
      simp only [reachedWithin, List.mem_filter, Bool.and_eq_true,
        decide_eq_true_eq, isSeed, List.any_eq_true]
      constructor
      · rintro ⟨hdoc, hmatches, start, hstart, hseed⟩
        exact ⟨0, Nat.le_refl 0, .seed hdoc hmatches hstart hseed⟩
      · rintro ⟨depth, hdepth, hreached⟩
        cases hreached with
        | seed hdoc hmatches hstart hseed =>
            exact ⟨hdoc, hmatches, _, hstart, hseed⟩
        | hop => omega
  | succ limit ih =>
      simp only [reachedWithin, List.mem_filter, Bool.and_eq_true,
        Bool.or_eq_true, decide_eq_true_eq, isSeed, List.any_eq_true, ih,
        follows]
      constructor
      · rintro ⟨hdoc, hmatches, ⟨start, hstart, hseed⟩ |
          ⟨previous, hprevious, hsome, hlink⟩⟩
        · exact ⟨0, by omega, .seed hdoc hmatches hstart hseed⟩
        · obtain ⟨depth, hdepth, hreached⟩ := hprevious
          obtain ⟨value, hvalue⟩ := Option.isSome_iff_exists.mp hsome
          exact ⟨depth + 1, by omega,
            .hop hreached (hlink.trans hvalue) hdoc hmatches hvalue⟩
      · rintro ⟨depth, hdepth, hreached⟩
        cases hreached with
        | seed hdoc hmatches hstart hseed =>
            exact ⟨hdoc, hmatches, .inl ⟨_, hstart, hseed⟩⟩
        | @hop depth previous _ value hprevious hfrom hdoc hmatches hto =>
            refine ⟨hdoc, hmatches, .inr ⟨previous, ?_, ?_, ?_⟩⟩
            · exact ⟨depth, by omega, hprevious⟩
            · rw [hto]
              rfl
            · rw [hfrom, hto]

end GraphLookup

end Milona.Storage.Mongo
