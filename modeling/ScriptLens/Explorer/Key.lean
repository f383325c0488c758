/-! The keys that a session hears. Modifiers make no difference. -/

namespace ScriptLens.Explorer

inductive Key where
  | char (c : Char)
  | tab | backTab | left | right | up | down | home | last
  | other
  deriving DecidableEq

/-- The names of keys; any other name stands for its first character. -/
def Key.named : String → Key
  | "Tab" => tab
  | "BackTab" => backTab
  | "Left" => left
  | "Right" => right
  | "Up" => up
  | "Down" => down
  | "Home" => home
  | "End" => last
  | "Enter" | "Esc" | "PageUp" | "PageDown" | "Backspace" | "Delete" | "F1" => other
  | name => (name.toList.head?.map char).getD other

end ScriptLens.Explorer
