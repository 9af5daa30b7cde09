import ClassWarden.Proofs.Detection
import Mathlib.Data.List.ProdSigma

/-!
# The findings in a class

Every method with code is compared with every signature, and nothing else adds
to the findings of a class: they stand in the order of the methods and, for one
method, in that of the signatures.  A class has no findings unless all of its
methods can be decoded; otherwise the first failure in file order is told, and
that failure has nothing to do with signatures or options.
-/

namespace ClassWarden

namespace Method

variable {method : Method}

/-- Why the method's code cannot be decoded, if there is code and it cannot. -/
def failure? (method : Method) : Option DecodeError :=
  method.code.bind fun code =>
    match Bytecode.decode code with
    | .ok _ => none
    | .error failure => some failure

theorem failure?_eq_none_iff : method.failure? = none ↔ method.Decodes := by
  rw [failure?, Decodes]
  cases method.code with
  | none => simp
  | some code =>
      cases hdecode : Bytecode.decode code <;> simp [hdecode, Except.isOk, Except.toBool]

end Method

namespace Detector

variable {detector : Detector} {file : ClassFile} {bytes : List UInt8}

def attempt (detector : Detector) (pool : ConstantPool) (pair : Method × Signature) :
    Option Finding :=
  (pair.1.stream? pool).bind fun stream =>
    Matching.findSignature detector.options (pair.1.displayName pool) stream pair.2

/-- The findings of all comparisons, in order. -/
def attempts (detector : Detector) (file : ClassFile) : List Finding :=
  (file.methods ×ˢ detector.signatures).filterMap (detector.attempt file.pool)

theorem methodFindings_eq_filterMap (detector : Detector) (pool : ConstantPool)
    (method : Method) :
    detector.methodFindings pool method =
      detector.signatures.filterMap fun signature => detector.attempt pool (method, signature) := by
  rw [methodFindings]
  cases hstream : method.stream? pool with
  | none => simp [attempt, hstream]
  | some stream =>
      simp only [attempt, hstream, Option.elim_some, Option.bind_some]
      rfl

theorem flatMap_methodFindings (detector : Detector) (file : ClassFile) :
    file.methods.flatMap (detector.methodFindings file.pool) = detector.attempts file := by
  have hmethods : detector.methodFindings file.pool = fun method =>
      detector.signatures.filterMap fun signature =>
        detector.attempt file.pool (method, signature) :=
    funext (detector.methodFindings_eq_filterMap file.pool)
  simp only [attempts, hmethods, SProd.sprod, List.product, List.filterMap_flatMap,
    List.filterMap_map, Function.comp_def]

/-- The scan of the methods ends at the first one that cannot be decoded. -/
theorem scanMethods_snd (detector : Detector) (pool : ConstantPool) (methods : List Method) :
    (detector.scanMethods pool methods).2 = methods.findSome? Method.failure? := by
  induction methods with
  | nil => rfl
  | cons method methods ih =>
      rw [scanMethods, List.findSome?_cons, Method.failure?]
      cases method.code with
      | none => exact ih
      | some code =>
          cases hdecode : Bytecode.decode code with
          | error failure => simp [hdecode]
          | ok instructions => simpa [hdecode] using ih

/-- A class that can be parsed is decoded throughout, or fails like its first
method that cannot be decoded. -/
theorem findMatches_of_parse (hparse : ClassFile.parse bytes = .ok file) :
    detector.findMatches bytes =
      match file.methods.findSome? Method.failure? with
      | some failure => .error failure
      | none => .ok (detector.attempts file) := by
  cases hfailure : file.methods.findSome? Method.failure? with
  | none =>
      have hdecodes : ∀ method ∈ file.methods, method.Decodes := fun method hmethod =>
        Method.failure?_eq_none_iff.mp (List.findSome?_eq_none_iff.mp hfailure method hmethod)
      rw [findMatches_of_decodes hparse hdecodes, flatMap_methodFindings]
  | some failure =>
      have hscan := detector.scanMethods_snd file.pool file.methods
      rw [findMatches, inspect, hparse]
      dsimp only
      generalize detector.scanMethods file.pool file.methods = outcome at hscan
      obtain ⟨findings, failure?⟩ := outcome
      obtain rfl : failure? = some failure := hscan.trans hfailure
      rfl

theorem findMatches_of_parse_eq_error {failure : DecodeError}
    (hparse : ClassFile.parse bytes = .error failure) :
    detector.findMatches bytes = .error failure := by
  rw [findMatches, inspect, hparse]

end Detector

end ClassWarden
