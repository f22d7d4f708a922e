import Mathlib.Data.List.Lex
import Mathlib.Data.Char
import Mathlib.Algebra.Ring.Nat
import Mathlib.Algebra.Ring.Int.Defs

/-- Texts and strings of octets compare lawfully, under one name in every module. -/
instance (priority := high) lawfulText : LawfulBEq (List Char) := inferInstance

instance (priority := high) lawfulTexts : LawfulBEq (List (List Char)) := inferInstance

instance (priority := high) lawfulOctets : LawfulBEq (List Nat) := inferInstance

instance (priority := high) lawfulKeys : LawfulBEq (List (List Nat)) := inferInstance
