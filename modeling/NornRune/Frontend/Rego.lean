import NornRune.Frontend.Bindings

-- How a reference of a Rego policy is resolved to a declared field.
namespace NornRune.Frontend.Rego

inductive Term
  | var (name : List Byte)
  | string (text : List Byte)
  | other
  deriving DecidableEq, Repr

def Term.part? : (row : Nat) → Term → Option (List Byte)
  | 0, .var name => some name
  | _ + 1, .string text => some text
  | _, _ => none

def matchesFrom (path : List Byte) : (row start : Nat) → List Term → Bool
  | _, start, [] => start == path.length
  | row, start, term :: ref =>
    let stop := (path.drop start).idxOf dot
    let segment := (path.drop start).take stop
    match term.part? row with
    | none => false
    | some value =>
      if segment ≠ value then false
      else
        let start := start + stop
        matchesFrom path (row + 1) (if start < path.length then start + 1 else start) ref

def refMatchesPath (ref : List Term) (path : List Byte) : Bool :=
  matchesFrom path 0 0 ref

structure Bound where
  field : Nat
  kind : ValueKind
  inputRef : Bool
  static : Bool
  found : Bool
  deriving DecidableEq, Repr

def boundRow (ref : List Term) : (row : Nat) → List Binding → Bound
  | _, [] => ⟨0, .invalid, true, true, false⟩
  | row, binding :: rows =>
    if refMatchesPath ref binding.source then ⟨row + 1, binding.kind, true, true, true⟩
    else boundRow ref (row + 1) rows

def boundField (ref : List Term) (bindings : BindingSet) : Bound :=
  match ref with
  | [] => ⟨0, .invalid, false, false, false⟩
  | root :: parts =>
    if root ≠ .var (bytes "input") then ⟨0, .invalid, false, false, false⟩
    else if parts.any fun | .string _ => false | _ => true then ⟨0, .invalid, true, false, false⟩
    else boundRow ref 0 bindings.fields

def Bound.resolved (b : Bound) : Option Nat :=
  if b.found then some b.field else none

end NornRune.Frontend.Rego
