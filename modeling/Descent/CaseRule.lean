import Descent.Text.LowerCase

/-!
Whether capitals and small letters are told apart.
-/

namespace Descent

/-- Does the case of letters matter? -/
inductive CaseRule where
  | sensitive
  | insensitive
deriving Repr, DecidableEq

namespace CaseRule

/-- The form that texts with the same spelling under the rule share. -/
def normalize : CaseRule → String → String
  | sensitive, text => text
  | insensitive, text => Text.lower text

/-- The name of the rule. -/
def name : CaseRule → String
  | sensitive => "Sensitive"
  | insensitive => "Insensitive"

end CaseRule

end Descent
