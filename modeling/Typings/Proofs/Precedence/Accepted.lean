import Typings.Proofs.Precedence.Unions
import Typings.Proofs.Spelling.Lossless
import Typings.Rendering

/-!
# What the rendering of an accepted source is read as

The text of a type, rendered as part of another one and without mappings, is read as the type means
it, unless `TypeExpr.groups` finds a spot where `[]` applies to less than it should or a function is
not closed off (`Rendering.ofText_eq_grouping_iff`).
-/

namespace Typings

open TsWord

/-- The names of an accepted source are names where they are written. -/
theorem Lexeme.IsScanned.isName {n : String} (h : (Lexeme.ident n).IsScanned) : IsName n := by
  obtain ⟨c, cs, chars, begins, continues⟩ := h
  have same : continuesIdent = Name.isPart := by
    funext d
    unfold continuesIdent Name.isPart Unicode.isAlphanumeric
    rw [Bool.or_assoc]
  rw [same] at continues
  exact .ofIdentifier chars begins continues

theorem TypeExpr.RendersAlone.ofText {config : Config} {x : TypeExpr}
    (h : x.RendersAlone config.indent { config := config } config.maxDepth.toNat) :
    TsForm.ofText (Rendering.ofType config .part x).text =
        some (x.grouping config.maxDepth.toNat false) ↔
      x.groups config.maxDepth.toNat = true := by
  obtain ⟨ws, gives, same⟩ := h
  have words := gives 0 [] .nil
  have done : TsWord.scan (.name []) [] = [] := rfl
  rw [List.append_nil, done, List.append_nil] at words
  rw [← same, ← words]
  rfl

end Typings
