import NornRune.Execution.Evidence
import NornRune.Lib.Utf8

-- The declarations that a policy in another language is compiled with.
namespace NornRune.Frontend

inductive ValueKind
  | invalid
  | string
  | integer
  | boolean
  deriving DecidableEq, Repr

def ValueKind.valid : ValueKind → Bool
  | invalid => false
  | _ => true

inductive FieldGroup
  | invalid
  | subject
  | action
  | resource
  | output
  | context
  deriving DecidableEq, Repr

def FieldGroup.valid : FieldGroup → Bool
  | invalid => false
  | _ => true

structure Limits where
  maxSourceBytes : Nat
  maxNodes : Nat
  maxDepth : Nat
  maxFields : Nat
  maxLiterals : Nat
  maxChildren : Nat
  maxStringBytes : Nat
  maxDiagnostics : Nat
  deriving DecidableEq, Repr

namespace Limits

def default : Limits where
  maxSourceBytes := 4 * 2 ^ 20
  maxNodes := 65536
  maxDepth := 128
  maxFields := 4096
  maxLiterals := 131072
  maxChildren := 65536
  maxStringBytes := 2 ^ 20
  maxDiagnostics := 128

def maxInt32 : Nat := 2 ^ 31 - 1

def valid (l : Limits) : Bool :=
  [l.maxSourceBytes, l.maxNodes, l.maxDepth, l.maxFields, l.maxLiterals, l.maxChildren,
    l.maxStringBytes, l.maxDiagnostics].all fun n => decide (0 < n) && decide (n ≤ maxInt32)

end Limits

structure Binding where
  source : List Byte
  target : List Byte
  kind : ValueKind
  group : FieldGroup
  deriving DecidableEq, Repr

structure BindingSet where
  name : List Byte
  version : List Byte
  decision : List Byte
  fields : List Binding
  deriving DecidableEq, Repr

inductive BindingError
  | invalidLimits
  | invalidBinding
  deriving DecidableEq, Repr

def validMetadata (value : List Byte) : Bool :=
  match Utf8.runes? value.length value with
  | none => false
  | some runes => !value.isEmpty && runes.all fun r => !(decide (r < ' ') || r == '\x7f')

def dot : Byte := 0x2e#8

def letter (c : Byte) : Bool :=
  decide (0x61#8 ≤ c ∧ c ≤ 0x7a#8) || decide (0x41#8 ≤ c ∧ c ≤ 0x5a#8) || c == 0x5f#8

def digit (c : Byte) : Bool :=
  decide (0x30#8 ≤ c ∧ c ≤ 0x39#8)

def validPathFrom : (segmentStart : Bool) → List Byte → Bool
  | segmentStart, [] => !segmentStart
  | segmentStart, character :: cs =>
    if character = dot then !segmentStart && validPathFrom true cs
    else if segmentStart then letter character && validPathFrom false cs
    else (letter character || digit character) && validPathFrom false cs

def validPath (value : List Byte) : Bool :=
  validPathFrom true value

namespace BindingSet

def validateFields (limits : Limits) : (previous fields : List Binding) → (stringBytes : Nat) →
    Except BindingError Nat
  | _, [], stringBytes => .ok stringBytes
  | previous, binding :: fields, stringBytes =>
    if !validPath binding.source ∨ !validPath binding.target ∨ !binding.kind.valid ∨
        !binding.group.valid then .error .invalidBinding
    else
      let stringBytes := stringBytes + (binding.source.length + binding.target.length)
      if limits.maxStringBytes < stringBytes then .error .invalidBinding
      else if previous.any fun p => p.source == binding.source || p.target == binding.target then
        .error .invalidBinding
      else validateFields limits (previous ++ [binding]) fields stringBytes

def validate (b : BindingSet) (limits : Limits) : Except BindingError Unit :=
  if !limits.valid then .error .invalidLimits
  else if !validMetadata b.name ∨ !validMetadata b.version ∨
      (b.decision ≠ [] ∧ !validPath b.decision) then .error .invalidBinding
  else if limits.maxFields < b.fields.length then .error .invalidBinding
  else do
    let stringBytes ← validateFields limits [] b.fields
      (b.name.length + b.version.length + b.decision.length)
    if limits.maxStringBytes < stringBytes then .error .invalidBinding
    else .ok ()

end BindingSet
end NornRune.Frontend
