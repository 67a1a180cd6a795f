import LocaleLint.Yaml.Value.Build

set_option autoImplicit false

namespace LocaleLint.Number

-- Floating-point numbers when the nodes that they come from get other numbers.
def Binary64.renamed (f : Nat → Nat) : Binary64 → Binary64
  | .nan (node + 1) => .nan (f node + 1)
  | x => x

namespace Binary64

variable (f : Nat → Nat)

theorem ofRatio_renamed (negative : Bool) (num den : Nat) :
    (ofRatio negative num den).renamed f = ofRatio negative num den := by
  simp only [ofRatio, apply_ite (renamed f)]
  rfl

theorem ofDyadic_renamed (negative : Bool) (mantissa : Nat) (exponent : Int) :
    (ofDyadic negative mantissa exponent).renamed f = ofDyadic negative mantissa exponent := by
  unfold ofDyadic
  split
  · exact ofRatio_renamed f negative _ 1
  · exact ofRatio_renamed f negative mantissa _

theorem ofDecimal_renamed (negative : Bool) (coefficient : Nat) (exponent : Int) (digits : Nat) :
    (ofDecimal negative coefficient exponent digits).renamed f =
      ofDecimal negative coefficient exponent digits := by
  unfold ofDecimal
  split
  · rfl
  split
  · rfl
  split
  · rfl
  split
  · exact ofRatio_renamed f negative _ 1
  · exact ofRatio_renamed f negative coefficient _

theorem neg_renamed (x : Binary64) : x.neg.renamed f = (x.renamed f).neg := by
  cases x with
  | finite negative mantissa exponent => rfl
  | infinite negative => rfl
  | nan origin => cases origin <;> rfl

theorem mul_renamed (node : Nat) (x y : Binary64) :
    mul (f node + 1) (x.renamed f) (y.renamed f) = (mul (node + 1) x y).renamed f := by
  cases x with
  | finite n m e =>
    cases y with
    | finite n' m' e' => exact (ofDyadic_renamed f _ _ _).symm
    | infinite n' =>
      simp only [mul, renamed]
      split <;> rfl
    | nan origin => cases origin <;> rfl
  | infinite n =>
    cases y with
    | finite n' m' e' =>
      simp only [mul, renamed]
      split <;> rfl
    | infinite n' => rfl
    | nan origin => cases origin <;> rfl
  | nan origin => cases origin <;> cases y <;> rfl

theorem add_renamed (node : Nat) (x y : Binary64) :
    add (f node + 1) (x.renamed f) (y.renamed f) = (add (node + 1) x y).renamed f := by
  cases x with
  | finite n m e =>
    cases y with
    | finite n' m' e' =>
      simp only [add, renamed]
      split
      · rfl
      · exact (ofDyadic_renamed f _ _ _).symm
    | infinite n' => rfl
    | nan origin => cases origin <;> rfl
  | infinite n =>
    cases y with
    | finite n' m' e' => rfl
    | infinite n' =>
      simp only [add, renamed]
      split <;> rfl
    | nan origin => cases origin <;> rfl
  | nan origin => cases origin <;> cases y <;> rfl

end Binary64

theorem decimal?_renamed (f : Nat → Nat) (negative : Bool) (text : List Char) :
    (decimal? negative text).map (Binary64.renamed f) = decimal? negative text := by
  simp only [decimal?, apply_ite (Option.map (Binary64.renamed f)), Option.map_none, Option.map_map,
    Function.comp_def, Binary64.ofDecimal_renamed]

theorem float?_renamed (f : Nat → Nat) (node : Nat) (text : List Char) :
    float? (f node + 1) text = (float? (node + 1) text).map (Binary64.renamed f) := by
  simp only [float?]
  split
  · rfl
  split
  · rfl
  · exact (decimal?_renamed f _ _).symm

end LocaleLint.Number

namespace LocaleLint.Yaml

open LocaleLint.Number LocaleLint.Text

def Scalar.renamed (f : NodeId → NodeId) : Scalar → Scalar
  | .float x => .float (x.renamed f)
  | key => key

variable (f : NodeId → NodeId)

theorem floatPart_renamed (node : NodeId) (text : List Char) :
    floatPart (f node + 1) text = (floatPart (node + 1) text).map (Binary64.renamed f) := by
  unfold floatPart
  rw [float?_renamed]
  cases float? (node + 1) text <;> rfl

theorem floatParts_renamed (node : NodeId) (texts : List (List Char)) :
    texts.mapM (floatPart (f node + 1)) =
      (texts.mapM (floatPart (node + 1))).map (List.map (Binary64.renamed f)) := by
  induction texts with
  | nil => rfl
  | cons text rest ih =>
    rw [List.mapM_cons, List.mapM_cons, ih, floatPart_renamed]
    cases floatPart (node + 1) text with
    | error breakdown => rfl
    | ok part => cases rest.mapM (floatPart (node + 1)) <;> rfl

theorem sexagesimalFloat_renamed (node : NodeId) (parts : List Binary64) (scale : Nat)
    (sum : Binary64) :
    sexagesimalFloat (f node + 1) (parts.map (Binary64.renamed f)) scale (sum.renamed f) =
      (sexagesimalFloat (node + 1) parts scale sum).map (Binary64.renamed f) := by
  induction parts generalizing scale sum with
  | nil => rfl
  | cons part rest ih =>
    rw [List.map_cons, sexagesimalFloat, sexagesimalFloat]
    cases size : Binary64.ofInt scale with
    | infinite negative => rfl
    | nan origin => rfl
    | finite n m e =>
      have whole := Binary64.mul_renamed f node part (.finite n m e)
      rw [show (Binary64.finite n m e).renamed f = .finite n m e from rfl] at whole
      simp only [whole, Binary64.add_renamed]
      exact ih (60 * scale) _

def unsignedFloat (origin : Nat) (negative : Bool) (digits : List Char) :
    Except Breakdown Binary64 :=
  let signed := fun value : Binary64 => if negative then value.neg else value
  if digits = ".inf".toList then .ok (.infinite negative)
  else if digits = ".nan".toList then .ok sharedNan
  else if digits.contains ':' then do
    let parts ← (splitOn ':' digits).mapM (floatPart (origin + 1))
    return signed (← sexagesimalFloat (origin + 1) parts.reverse 1 Binary64.zero)
  else (floatPart (origin + 1) digits).map signed

theorem floatOf_eq (origin : Nat) (text : List Char) :
    floatOf origin text =
      match (dropUnderscores text).map lowerAscii with
      | [] => .error .emptyNumeral
      | '-' :: digits => unsignedFloat origin true digits
      | '+' :: digits => unsignedFloat origin false digits
      | digits => unsignedFloat origin false digits := rfl

theorem signed_renamed (negative : Bool) (x : Binary64) :
    (if negative then (x.renamed f).neg else x.renamed f) =
      (if negative then x.neg else x).renamed f := by
  cases negative with
  | true => exact (Binary64.neg_renamed f x).symm
  | false => rfl

theorem unsignedFloat_renamed (node : NodeId) (negative : Bool) (digits : List Char) :
    unsignedFloat (f node) negative digits =
      (unsignedFloat node negative digits).map (Binary64.renamed f) := by
  simp only [unsignedFloat]
  split
  · rfl
  split
  · rfl
  split
  · rw [floatParts_renamed]
    cases (splitOn ':' digits).mapM (floatPart (node + 1)) with
    | error breakdown => rfl
    | ok parts =>
      have sums := sexagesimalFloat_renamed f node parts.reverse 1 .zero
      rw [List.map_reverse] at sums
      change (sexagesimalFloat (f node + 1) (parts.map (Binary64.renamed f)).reverse 1
          (Binary64.zero.renamed f)).map (fun sum => if negative then sum.neg else sum) =
        ((sexagesimalFloat (node + 1) parts.reverse 1 .zero).map
          fun sum => if negative then sum.neg else sum).map (Binary64.renamed f)
      rw [sums]
      cases sexagesimalFloat (node + 1) parts.reverse 1 Binary64.zero with
      | error breakdown => rfl
      | ok sum => exact congrArg Except.ok (signed_renamed f negative sum)
  · rw [floatPart_renamed]
    cases floatPart (node + 1) digits with
    | error breakdown => rfl
    | ok value => exact congrArg Except.ok (signed_renamed f negative value)

theorem floatOf_renamed (node : NodeId) (text : List Char) :
    floatOf (f node) text = (floatOf node text).map (Binary64.renamed f) := by
  rw [floatOf_eq, floatOf_eq]
  split
  · rfl
  · exact unsignedFloat_renamed f node true _
  · exact unsignedFloat_renamed f node false _
  · exact unsignedFloat_renamed f node false _

theorem timestampOf_renamed (text : List Char) :
    (timestampOf text).map (Scalar.renamed f) = timestampOf text := by
  unfold timestampOf
  split
  · rfl
  split
  · rfl
  split
  · rfl
  split
  · rfl
  · rfl

theorem ofPoints_renamed (points : List CodePoint) :
    (Scalar.ofPoints points).renamed f = Scalar.ofPoints points := by
  unfold Scalar.ofPoints
  cases CodePoint.whole? points <;> rfl

theorem scalarOf_renamed (node : NodeId) (start : Position) (tag : Tag) (text : List CodePoint) :
    Build.scalarOf (f node) start tag text =
      (Build.scalarOf node start tag text).map (Scalar.renamed f) := by
  have plain : Except.ok (Scalar.ofPoints text) =
      (Except.ok (Scalar.ofPoints text) : Except Stop Scalar).map (Scalar.renamed f) :=
    congrArg Except.ok (ofPoints_renamed f text).symm
  cases tag with
  | null => rfl
  | bool =>
    simp only [Build.scalarOf]
    cases boolOf (text.map (·.toChar)) <;> rfl
  | int =>
    simp only [Build.scalarOf]
    cases intOf (text.map (·.toChar)) <;> rfl
  | float =>
    simp only [Build.scalarOf, floatOf_renamed]
    cases floatOf node (text.map (·.toChar)) <;> rfl
  | binary =>
    simp only [Build.scalarOf]
    cases binaryOf text <;> rfl
  | timestamp =>
    have same := timestampOf_renamed f (text.map (·.toChar))
    simp only [Build.scalarOf]
    cases read : timestampOf (text.map (·.toChar)) with
    | error breakdown => rfl
    | ok name =>
      rw [read] at same
      exact congrArg Except.ok (Except.ok.inj same).symm
  | _ => exact plain

namespace Scalar

-- A number that is none and has an origin of its own.
def isOwnNan : Scalar → Bool
  | .float (.nan (_ + 1)) => true
  | _ => false

theorem renamed_of_plain (key : Scalar) (plain : key.isOwnNan = false) : key.renamed f = key := by
  cases key with
  | float x =>
    cases x with
    | nan origin =>
      cases origin with
      | zero => rfl
      | succ node => cases plain
    | _ => rfl
  | _ => rfl

theorem eq_of_isOwnNan (key : Scalar) (own : key.isOwnNan = true) :
    ∃ node, key = .float (.nan (node + 1)) := by
  cases key with
  | float x =>
    cases x with
    | nan origin =>
      cases origin with
      | zero => cases own
      | succ node => exact ⟨node, rfl⟩
    | _ => cases own
  | _ => cases own

theorem isOwnNan_renamed (key : Scalar) : (key.renamed f).isOwnNan = key.isOwnNan := by
  cases own : key.isOwnNan with
  | false => rw [renamed_of_plain f key own, own]
  | true =>
    obtain ⟨node, rfl⟩ := key.eq_of_isOwnNan own
    rfl

theorem same_nan_of_plain (key : Scalar) (node : NodeId) (plain : key.isOwnNan = false) :
    key.same (.float (.nan (node + 1))) = false := by
  cases key with
  | float x =>
    cases x with
    | nan origin =>
      cases origin with
      | zero => simp [same, asInt?, Binary64.same]
      | succ other => cases plain
    | _ => rfl
  | _ => rfl

theorem same_renamed (a b : Scalar)
    (apart : ∀ i j, a = .float (.nan (i + 1)) → b = .float (.nan (j + 1)) → i ≠ j ∧ f i ≠ f j) :
    (a.renamed f).same (b.renamed f) = a.same b := by
  cases ownA : a.isOwnNan with
  | false =>
    rw [renamed_of_plain f a ownA]
    cases ownB : b.isOwnNan with
    | false => rw [renamed_of_plain f b ownB]
    | true =>
      obtain ⟨j, rfl⟩ := b.eq_of_isOwnNan ownB
      rw [same_nan_of_plain a j ownA]
      exact same_nan_of_plain a (f j) ownA
  | true =>
    obtain ⟨i, rfl⟩ := a.eq_of_isOwnNan ownA
    cases ownB : b.isOwnNan with
    | false =>
      rw [renamed_of_plain f b ownB, same_symm, same_symm _ b, same_nan_of_plain b i ownB]
      exact same_nan_of_plain b (f i) ownB
    | true =>
      obtain ⟨j, rfl⟩ := b.eq_of_isOwnNan ownB
      obtain ⟨differ, renamed⟩ := apart i j rfl rfl
      have before : (i == j) = false := beq_eq_false_iff_ne.mpr differ
      have after : (f i == f j) = false := beq_eq_false_iff_ne.mpr renamed
      simp [Scalar.renamed, same, asInt?, Binary64.same, Binary64.renamed, before, after]

end Scalar

end LocaleLint.Yaml
