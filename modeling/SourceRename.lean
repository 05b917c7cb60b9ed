import SourceRename.Run.Basic
import SourceRename.Renames.Inverse
import SourceRename.Proofs.Syntax.Nesting
import SourceRename.Proofs.Syntax.PropertyNames
import SourceRename.Proofs.Template.Instantiate
import SourceRename.Proofs.Rename.Survival
import SourceRename.Proofs.Edit.Free
import SourceRename.Proofs.Syntax.Faithful
import SourceRename.Proofs.Rename.Alone
import SourceRename.Proofs.Rename.Walk
import SourceRename.Proofs.Template.Found
import SourceRename.Proofs.Rename.Matches
import SourceRename.Proofs.Template.Offer
import SourceRename.Proofs.Rename.Unmapped
import SourceRename.Proofs.Renames.Inverse
import SourceRename.Proofs.Mixin.Innermost
import SourceRename.Proofs.Rename.KotlinWalk
import SourceRename.Proofs.Rename.Inherited
import SourceRename.Proofs.Rename.Overrides
import SourceRename.Proofs.Rename.KotlinReach
import SourceRename.Proofs.Template.Tiling
import SourceRename.Proofs.Mixin.Places
import SourceRename.Proofs.Rename.Safety
import SourceRename.Proofs.Template.Outermost
import SourceRename.Proofs.Mixin.Selected
import SourceRename.Proofs.Mixin.Gating
import SourceRename.Proofs.Rename.QualifiedNames
import SourceRename.Proofs.Rename.Properties
import SourceRename.Proofs.Run.Outcome
import SourceRename.Proofs.Mixin.BareNames
import SourceRename.Proofs.Mixin.Accessors
import SourceRename.Proofs.Template.Alike
import SourceRename.Proofs.Template.Signs
import SourceRename.Proofs.Template.Points
import SourceRename.Proofs.Template.Binders
import SourceRename.Proofs.Syntax.Graft
import SourceRename.Proofs.Template.Itself
import SourceRename.Proofs.Template.Separators
import SourceRename.Proofs.Symbol.Assignable
import SourceRename.Proofs.Mixin.Supertypes
import SourceRename.Proofs.Mixin.Ambiguous
import SourceRename.Proofs.Mixin.SharedConstants
import SourceRename.Proofs.Symbol.Boxing
import SourceRename.Proofs.Renames.TypeByType
import SourceRename.Proofs.Mixin.Selectors
import SourceRename.Proofs.Symbol.Descriptors
import SourceRename.Proofs.Symbol.ClassNames
import SourceRename.Proofs.Source.SideTables
import SourceRename.Proofs.Edit.Order
import SourceRename.Proofs.Template.Twice
import SourceRename.Proofs.Text.Newlines
import SourceRename.Proofs.Renames.NestedNames
