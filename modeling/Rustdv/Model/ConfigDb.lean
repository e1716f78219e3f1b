import Mathlib.Data.Int.Notation
import Mathlib.Data.List.Sort
import Rustdv.ToMathlib.Glob
import Rustdv.ToMathlib.SortBy

/-! # The configuration database

Values are stored under a path pattern, a field and a precedence, in ordered maps. A lookup collects
the patterns that match a path and hold the field, in the order of the patterns, with the entry of
highest precedence from each; it sorts them by specificity and takes the first.
-/

namespace Rustdv

/-- A path's rendering extended by one segment. -/
def childPath (path name : String) : String :=
  if path = "" then name else s!"{path}.{name}"

namespace Config

open Std

/-- A stored value with what is known of its type, and its rendering. -/
structure Entry (V : Type*) where
  value : V
  typeName : String
  typeId : ℕ
  rendered : String
deriving DecidableEq, Repr

inductive ConfigError where
  | notFound (path field : String)
  | typeMismatch (path field stored requested : String)
deriving DecidableEq, Repr

def ConfigError.kind : ConfigError → String
  | .notFound .. => "config_not_found"
  | .typeMismatch .. => "config_type_mismatch"

def ConfigError.text : ConfigError → String
  | .notFound path field => s!"ConfigDb: no value for \"{field}\" at \"{path}\" " ++
      "(never set, path does not match, or the key is misspelled)"
  | .typeMismatch path field stored requested =>
      s!"ConfigDb: \"{field}\" at \"{path}\" holds a {stored}, but a {requested} was requested"

/-- Path glob, field, precedence, entry. -/
abbrev Store (V : Type*) := TreeMap String (TreeMap String (TreeMap ℤ (Entry V)))

/-- The ambient database of a test. -/
structure ConfigDb (V : Type*) where
  store : Store V
  tracing : Bool
  /-- Set while the build phase walks the tree. -/
  inBuild : Bool

def defaultPrecedence : ℤ := 1000

/-- The bytes of a text. -/
def bytes (text : String) : List UInt8 := text.toUTF8.data.toList

/-- `glob_match`: only the star is special. -/
def globMatch (path pattern : String) : Bool := Glob.accepts '*'.toUInt8 (bytes pattern) (bytes path)

/-- The recursion of `glob_match`, with its backtracking: a path and a pattern, both in bytes. -/
def globMatch.inner : List UInt8 → List UInt8 → Bool
  | p, [] => p.isEmpty
  | [], b :: g => b == '*'.toUInt8 && inner [] g
  | a :: p, b :: g =>
      if b = '*'.toUInt8 then inner (a :: p) g || inner p (b :: g) else if a = b then inner p g else false
termination_by p g => p.length + g.length

/-- `more_specific`. -/
def moreSpecific (a b : String) : Bool := globMatch a b

/-- The comparison that `get` sorts by. -/
def bySpecificity (a b : String) : Ordering :=
  (compare (moreSpecific a b) (moreSpecific b a)).swap

/-- `resolve`: a context's path and an offset. -/
def resolve (ctx : Option String) (offset : String) : String :=
  match ctx with
  | none => offset
  | some path => if offset = "" then path else if path = "" then offset else s!"{path}.{offset}"

/-- `depth_of`: the root test is 0. -/
def depthOf (path : String) : ℕ := if path = "" then 0 else path.toList.count '.'

section Operations

variable {V : Type*}

def init : ConfigDb V := ⟨∅, false, false⟩

/-- What `trace` logs. -/
def trace (db : ConfigDb V) (op : String) (ctx : Option String) (offset path field value : String) : List String :=
  if db.tracing then
    let context := ctx.getD "<none>"
    [s!"CFGDB/{op} context={context} offset=\"{offset}\" -> {path} {field}={value}"]
  else []

/-- During build the setter's depth counts, not the depth of the path that is written. -/
def precedence (db : ConfigDb V) (ctx : Option String) : ℤ :=
  if db.inBuild then defaultPrecedence - (ctx.elim 0 depthOf : ℕ) else defaultPrecedence

def Store.insert (store : Store V) (path field : String) (prec : ℤ) (entry : Entry V) : Store V :=
  let fields := store.getD path ∅
  TreeMap.insert store path (fields.insert field ((fields.getD field ∅).insert prec entry))

/-- `ConfigDb::set`, with what it logs. -/
def set (db : ConfigDb V) (ctx : Option String) (offset field : String) (entry : Entry V) :
    ConfigDb V × List String :=
  let path := resolve ctx offset
  ({ db with store := Store.insert db.store path field (precedence db ctx) entry },
    trace db "SET" ctx offset path field entry.rendered)

/-- The entry of highest precedence for a field. -/
def winning (fields : TreeMap String (TreeMap ℤ (Entry V))) (field : String) : Option (Entry V) :=
  fields[field]?.bind fun byPrec => byPrec.toList.getLast?.map Prod.snd

/-- The patterns that match and hold the field, each with its entry. -/
def candidates (store : Store V) (path field : String) : List (String × Entry V) :=
  (store.toList.filter fun p => globMatch path p.1).filterMap fun p =>
    (winning p.2 field).map fun entry => (p.1, entry)

variable (sort : (String × Entry V → String × Entry V → Bool) → List (String × Entry V) →
  Option (List (String × Entry V)))

/-- The pattern and the entry that a lookup finds; the outer `none` is a panic in the sort. -/
def found (store : Store V) (path field : String) : Option (Option (String × Entry V)) :=
  (sort (fun a b => bySpecificity a.1 b.1 == .lt) (candidates store path field)).map List.head?

/-- `ConfigDb::get` for a type, with what it logs. -/
def get (db : ConfigDb V) (ctx : Option String) (offset field typeName : String) (typeId : ℕ) :
    Option (Except ConfigError V × List String) :=
  let path := resolve ctx offset
  (found sort db.store path field).map fun
  | none => (.error (.notFound path field), trace db "GET" ctx offset path field "<not found>")
  | some (_, entry) =>
      if entry.typeId = typeId then
        (.ok entry.value, trace db "GET" ctx offset path field entry.rendered)
      else
        (.error (.typeMismatch path field entry.typeName typeName),
          trace db "GET" ctx offset path field "<type mismatch>")

/-- `ConfigDb::exists`. -/
def «exists» (db : ConfigDb V) (ctx : Option String) (offset field : String) : Bool :=
  db.store.toList.any fun p => globMatch (resolve ctx offset) p.1 && p.2.contains field

/-- `ConfigDb::clear`. -/
def clear : ConfigDb V := init

end Operations

/-- The calls that change the database. -/
inductive Call (V : Type*) where
  | set (ctx : Option String) (offset field : String) (entry : Entry V)
  | setTracing (on : Bool)
  | setInBuild (active : Bool)
  | clear

section History

variable {V : Type*}

def call (db : ConfigDb V) : Call V → ConfigDb V
  | .set ctx offset field entry => (set db ctx offset field entry).1
  | .setTracing on => { db with tracing := on }
  | .setInBuild active => { db with inBuild := active }
  | .clear => clear

/-- The database after a history of calls. -/
def after (history : List (Call V)) : ConfigDb V := history.foldl call init

end History

end Config

end Rustdv
