import ClassSketch.Target.CSharp
import ClassSketch.Target.Java
import ClassSketch.Target.JavaScript
import ClassSketch.Target.Kotlin
import ClassSketch.Target.Python
import ClassSketch.Target.Ruby
import ClassSketch.Target.TypeScript

/-!
# Target languages

The languages for which code can be generated, by name. A name is known in
any case and with blanks around it.
-/

namespace ClassSketch

inductive Language where
  | csharp
  | java
  | javascript
  | kotlin
  | python
  | ruby
  | typescript
deriving DecidableEq

namespace Language

/-- All languages, by name. -/
def all : List Language :=
  [csharp, java, javascript, kotlin, python, ruby, typescript]

def name : Language → String
  | csharp => "csharp"
  | java => "java"
  | javascript => "javascript"
  | kotlin => "kotlin"
  | python => "python"
  | ruby => "ruby"
  | typescript => "typescript"

def emitter : Language → Emitter
  | csharp => Target.CSharp.emitter
  | java => Target.Java.emitter
  | javascript => Target.JavaScript.emitter
  | kotlin => Target.Kotlin.emitter
  | python => Target.Python.emitter
  | ruby => Target.Ruby.emitter
  | typescript => Target.TypeScript.emitter

def ofName? (s : String) : Option Language :=
  let key := Text.foldKey (Text.trim s.toList)
  all.find? fun l => l.name == key

theorem mem_all (l : Language) : l ∈ all := by
  cases l <;> decide

end Language

end ClassSketch
