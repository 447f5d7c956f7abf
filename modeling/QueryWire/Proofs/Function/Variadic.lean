import QueryWire.Function.Variadic
import QueryWire.Host
import QueryWire.Proofs.Expr.Equality

namespace QueryWire

/-! # The argument lists of variadic functions

A function that takes one argument for itself and any other number of them as an array cannot
tell some lists of arguments apart: the one argument may itself be an array.

An equality here is any relation that compares calls and arrays by their parts, which both
equalities of expressions are.
-/

namespace Host

theorem encodeItems_exprs (exprs : List Expr) :
    encodeItems (exprs.map .expr) = .ok exprs := by
  induction exprs with
  | nil => rfl
  | cons expr exprs ih =>
      rw [List.map_cons, encodeItems, encode, ih]
      rfl

theorem encode_exprs (exprs : List Expr) :
    (Host.sequence (exprs.map .expr)).encode = .ok (.array exprs) := by
  rw [encode, encodeItems_exprs]
  rfl

end Host

namespace Expr

/-- An equality of expressions that compares nodes by their parts, with the equality of lists
that it compares parts by. -/
structure Partwise (alike : Expr → Expr → Prop) (alikeItems : List Expr → List Expr → Prop) :
    Prop where
  nil : alikeItems [] []
  single : ∀ {item other}, alikeItems [item] [other] ↔ alike item other
  length_eq : ∀ {items others}, alikeItems items others → items.length = others.length
  array : ∀ {items others}, alike (.array items) (.array others) ↔ alikeItems items others
  call : ∀ {name argument argument' others others'},
    alike (.call name argument others) (.call name argument' others') ↔
      alike argument argument' ∧ Members.names others = Members.names others' ∧
        alikeItems (others.map Prod.snd) (others'.map Prod.snd)

theorem partwise_eq : Partwise (· = ·) (· = ·) where
  nil := rfl
  single := List.singleton_inj
  length_eq := congrArg List.length
  array := ⟨array.inj, congrArg array⟩
  call {name argument argument' others others'} := by
    have fields : others = others' ↔ Members.names others = Members.names others' ∧
        others.map Prod.snd = others'.map Prod.snd :=
      ⟨fun equal => equal ▸ ⟨rfl, rfl⟩, fun ⟨names, values⟩ => fields_ext names values⟩
    simp only [call.injEq, true_and, fields]

theorem partwise_same :
    Partwise (fun expr other => expr.same other = true) (sameItems · · = true) where
  nil := rfl
  single := by simp [sameItems]
  length_eq alike := (sameItems_iff.mp alike).length_eq
  array := Iff.rfl
  call := by simp [same, sameFields_iff, sameItems_iff]

/-- What two lists are to each other if a function takes them for the same argument: they are
alike, or one is a single expression like the array of the other, which has not one item. -/
def SameArgument (alikeItems : List Expr → List Expr → Prop) (items others : List Expr) : Prop :=
  alikeItems items others ∨
    (alikeItems items [.array others] ∧ others.length ≠ 1) ∨
    (alikeItems [.array items] others ∧ items.length ≠ 1)

theorem singleton_oneOrMany_of_length_eq_one {items : List Expr} (one : items.length = 1) :
    [oneOrMany items] = items := by
  obtain ⟨item, rfl⟩ := List.length_eq_one_iff.mp one
  rfl

theorem oneOrMany_of_length_ne_one {items : List Expr} (several : items.length ≠ 1) :
    oneOrMany items = .array items := by
  match items with
  | [] | _ :: _ :: _ => rfl
  | [_] => exact absurd rfl several

namespace Partwise

variable {alike : Expr → Expr → Prop} {alikeItems : List Expr → List Expr → Prop}
  {arguments others : List Expr}

/-- Each list makes its only item or its array.  Where both do the same, the lists are alike;
otherwise the only item of one is like the array of the other. -/
theorem oneOrMany_iff (partwise : Partwise alike alikeItems) :
    alike (oneOrMany arguments) (oneOrMany others) ↔
      SameArgument alikeItems arguments others := by
  have lengths : alikeItems arguments others → (arguments.length = 1 ↔ others.length = 1) :=
    fun related => by rw [partwise.length_eq related]
  by_cases one : arguments.length = 1
  · rw [← partwise.single, singleton_oneOrMany_of_length_eq_one one]
    by_cases one' : others.length = 1
    · rw [singleton_oneOrMany_of_length_eq_one one']
      simp [SameArgument, one, one']
    · have apart : ¬ alikeItems arguments others := fun related => one' ((lengths related).mp one)
      rw [oneOrMany_of_length_ne_one one']
      simp [SameArgument, one, one', apart]
  · rw [oneOrMany_of_length_ne_one one]
    by_cases one' : others.length = 1
    · have apart : ¬ alikeItems arguments others := fun related => one ((lengths related).mpr one')
      rw [← partwise.single, singleton_oneOrMany_of_length_eq_one one']
      simp [SameArgument, one, one', apart]
    · have apart : ¬ alikeItems arguments [.array others] := fun related =>
        one (partwise.length_eq related)
      have apart' : ¬ alikeItems [.array arguments] others := fun related =>
        one' (partwise.length_eq related).symm
      rw [oneOrMany_of_length_ne_one one', partwise.array]
      simp [SameArgument, apart, apart']

theorem call_alone_iff (partwise : Partwise alike alikeItems) {name : String}
    {argument argument' : Expr} :
    alike (.call name argument []) (.call name argument' []) ↔ alike argument argument' :=
  partwise.call.trans (and_iff_left ⟨rfl, partwise.nil⟩)

theorem apply_iff (partwise : Partwise alike alikeItems) (function : Variadic) :
    alike (function.apply arguments) (function.apply others) ↔
      SameArgument alikeItems arguments others :=
  partwise.call_alone_iff.trans partwise.oneOrMany_iff

theorem sequence_iff (partwise : Partwise alike alikeItems) :
    alike (sequence arguments) (sequence others) ↔ alikeItems arguments others :=
  partwise.call_alone_iff.trans partwise.array

theorem invoke_iff (partwise : Partwise alike alikeItems) {function other : Expr} :
    alike (invoke function arguments) (invoke other others) ↔
      alike function other ∧ SameArgument alikeItems arguments others := by
  have values : alikeItems [oneOrMany arguments] [oneOrMany others] ↔
      SameArgument alikeItems arguments others := partwise.single.trans partwise.oneOrMany_iff
  exact partwise.call.trans (and_congr_right fun _ => (and_iff_right rfl).trans values)

end Partwise

/-- Two argument lists of one variadic function make one expression just if they are equal or
one is the array of the other.  A sequence, an array and an encoded list keep their items. -/
theorem arguments_identified_iff (arguments others : List Expr) :
    (∀ function : Variadic,
      (function.apply arguments = function.apply others ↔
        SameArgument (· = ·) arguments others) ∧
      ((function.apply arguments).same (function.apply others) = true ↔
        SameArgument (sameItems · · = true) arguments others)) ∧
    (∀ function other : Expr,
      (invoke function arguments = invoke other others ↔
        function = other ∧ SameArgument (· = ·) arguments others) ∧
      ((invoke function arguments).same (invoke other others) = true ↔
        function.same other = true ∧ SameArgument (sameItems · · = true) arguments others)) ∧
    ((sequence arguments = sequence others ↔ arguments = others) ∧
      ((sequence arguments).same (sequence others) = true ↔ sameItems arguments others = true)) ∧
    ((array arguments = array others ↔ arguments = others) ∧
      ((array arguments).same (array others) = true ↔ sameItems arguments others = true)) ∧
    (Host.sequence (arguments.map .expr)).encode = .ok (.array arguments) ∧
    ((Host.sequence (arguments.map .expr)).encode = (Host.sequence (others.map .expr)).encode ↔
      arguments = others) := by
  have encodings : (Host.sequence (arguments.map .expr)).encode =
      (Host.sequence (others.map .expr)).encode ↔ arguments = others := by
    rw [Host.encode_exprs, Host.encode_exprs, Except.ok.injEq]
    exact partwise_eq.array
  exact ⟨fun function => ⟨partwise_eq.apply_iff function, partwise_same.apply_iff function⟩,
    fun function other => ⟨partwise_eq.invoke_iff, partwise_same.invoke_iff⟩,
    ⟨partwise_eq.sequence_iff, partwise_same.sequence_iff⟩,
    ⟨partwise_eq.array, partwise_same.array⟩, Host.encode_exprs arguments, encodings⟩

/-- No argument at all is the same as one that is the array without items. -/
example : Variadic.union.apply [] = (Variadic.union.apply [.array []] : Expr) := rfl

end Expr

end QueryWire
