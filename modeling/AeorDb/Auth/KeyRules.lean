import AeorDb.Auth.Permissions

/-! The rules of an API key: an ordered list of globs with permission flags. -/

namespace AeorDb.Auth

open Store

structure KeyRule where
  glob : Str
  permitted : Str
  deriving DecidableEq

def operationToFlagChar : CrudlifyOp → Char
  | .create => 'c'
  | .read => 'r'
  | .update => 'u'
  | .delete => 'd'
  | .list => 'l'
  | .invoke => 'i'
  | .configure => 'y'
  | .deploy => 'f'

def flagIndex : Char → Option ℕ
  | 'c' => some 0
  | 'r' => some 1
  | 'u' => some 2
  | 'd' => some 3
  | 'l' => some 4
  | 'i' => some 5
  | 'f' => some 6
  | 'y' => some 7
  | _ => none

def checkOperationPermitted (permitted : Str) (operation : Char) : Bool :=
  match flagIndex operation with
  | some index => (permitted[index]?).any (· ≠ '-')
  | none => false

abbrev GlobMatch := Str → Str → Bool

def matchRules (globMatch : GlobMatch) (rules : List KeyRule) (path : Str) : Option KeyRule :=
  rules.find? fun rule => globMatch rule.glob path

def dropStars : Str → Str
  | '*' :: '*' :: s => dropStars s
  | s => s

def ruleTarget (rule : KeyRule) : Str := trimEnd (· = '/') (dropStars (trimEnd (· = '/') rule.glob).reverse).reverse

def isAncestorOfAnyRule (rules : List KeyRule) (path : Str) : Bool :=
  let normalized := trimEnd (· = '/') path
  rules.any fun rule => rule.glob ≠ "**".toList && startsWith (ruleTarget rule) normalized &&
    ((ruleTarget rule).length = normalized.length || (ruleTarget rule)[normalized.length]? = some '/')

def LeadsTo (path target : Str) : Prop := path = target ∨ path ++ ['/'] <+: target

lemma isAncestorOfAnyRule_iff (rules : List KeyRule) (path : Str) : isAncestorOfAnyRule rules path = true ↔
      ∃ rule ∈ rules, rule.glob ≠ "**".toList ∧ LeadsTo (trimEnd (· = '/') path) (ruleTarget rule) := by
  simp only [isAncestorOfAnyRule, List.any_eq_true, Bool.and_eq_true, Bool.or_eq_true, decide_eq_true_eq, and_assoc]
  refine exists_congr fun rule => and_congr_right fun _ => and_congr_right fun _ => ?_
  generalize ruleTarget rule = target
  generalize trimEnd (· = '/') path = path
  rw [startsWith, List.isPrefixOf_iff_prefix, LeadsTo]
  constructor
  · rintro ⟨⟨rest, rfl⟩, hlen | hnext⟩
    · left
      simpa using hlen
    · right
      rw [List.getElem?_append_right le_rfl, Nat.sub_self] at hnext
      obtain ⟨rest, rfl⟩ : ∃ t, rest = '/' :: t := by
        cases rest with
        | nil => simp at hnext
        | cons c t => exact ⟨t, by simpa using hnext⟩
      exact ⟨rest, by simp⟩
  · rintro (rfl | ⟨rest, rfl⟩)
    · exact ⟨List.prefix_rfl, Or.inl rfl⟩
    · exact ⟨⟨'/' :: rest, by simp⟩, Or.inr (by simp)⟩

def rulesPermit (globMatch : GlobMatch) (rules : List KeyRule) (path : Str) (operation : Char) : Bool :=
  match matchRules globMatch rules path with
  | some rule => checkOperationPermitted rule.permitted operation
  | none => false

lemma rulesPermit_iff (globMatch : GlobMatch) (rules : List KeyRule) (path : Str) (operation : Char) :
    rulesPermit globMatch rules path operation = true ↔
      ∃ rule, matchRules globMatch rules path = some rule ∧ checkOperationPermitted rule.permitted operation = true := by
  rw [rulesPermit]
  cases matchRules globMatch rules path with
  | none => simp
  | some rule => simp

end AeorDb.Auth
