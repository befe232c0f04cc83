import Transcriber.Config.Value

/-!
# Settings in layers

Settings come in layers; a later layer goes over the earlier ones.  A setting can be asked for in
the last layer that has it, or in every layer.

* `Config.last`, `Config.every` — the two questions.
-/

namespace Transcriber

abbrev Layer := List (String × Value)

/-- Settings in layers, the first layer first. -/
structure Config where
  layers : List Layer

namespace Config

def last (config : Config) (key : String) (default : Value) : Value :=
  (config.layers.reverse.findSome? fun layer => layer.lookup key).getD default

/-- The value in every layer, `default` where there is none. -/
def every (config : Config) (key : String) (default : Value) : List Value :=
  config.layers.map fun layer => (layer.lookup key).getD default

end Config

end Transcriber
