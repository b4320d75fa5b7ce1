import Regen.Fault
import Regen.Value

/-!
# Renderers

Generation does not depend on a template language: it asks for a function that turns a template
and a context into a text or an error.
-/

namespace Regen

/-- Renders a template text with the values of a context. -/
abbrev Renderer := Text → Context → Except TemplateError Text

end Regen
