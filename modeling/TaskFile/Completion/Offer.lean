import TaskFile.Tree.Path
import TaskFile.Document.Basic
import TaskFile.Text.Basic

/-!
# Offers

An offer names the list that it is made in and the items that it consists of.
It is made as a whole or not at all: `Offer.atOffset` is the whole list of items when
the cursor is directly in a list with the right name, in none of its elements,
and empty everywhere else.

* `Item.launchers` are the tasks that are offered in a task list.  Each one
  starts an Apache Camel application so that a debugger can attach to it: with
  Maven, with Maven and Quarkus, and with JBang.
* `Node.isListOf` decides whether a node is the array that is the value of a
  property with a given key.  JSON has no named arrays: the name stands on the
  property around the array, so one look at the parent decides.
-/

namespace TaskFile

/-! ## Launch tasks -/

/-- Something to insert at the cursor. -/
structure Item where
  /-- What is shown in the list of offers. -/
  label : String
  /-- What is shown beside the list. -/
  documentation : String
  /-- What is inserted, as it stands. -/
  insertText : String
  deriving DecidableEq, Repr

namespace Item

/-- A shell task that runs in the background, with a comment on its command and
on why it stays in the background. -/
def shellTask (label command commandNote : String) (arguments : List String)
    (backgroundNote : String) : String :=
  "\n".intercalate <|
    ["\x7b",
     "\t\"label\": \"" ++ label ++ "\",",
     "\t\"type\": \"shell\",",
     "\t\"command\": \"" ++ command ++ "\", // " ++ commandNote,
     "\t\"args\": ["] ++
    arguments.map ("\t\t" ++ ·) ++
    ["\t],",
     "\t\"problemMatcher\": \"$camel.debug.problemMatcher\",",
     "\t\"presentation\": \x7b",
     "\t\t\"reveal\": \"always\"",
     "\t\x7d,",
     "\t\"isBackground\": true // " ++ backgroundNote,
     "\x7d"]

/-- The argument that selects the debug profile of a Maven project. -/
def debugProfile : String :=
  "\"-Pcamel.debug\" // This depends on your project. " ++
    "The goal here is to have camel-debug on the classpath."

/-- The note on the Maven command. -/
def mavenNote : String := "mvn binary of Maven must be available on command-line"

/-- Why a Maven task stays in the background. -/
def mavenBackground : String :=
  "Must be set as background as the Maven commands doesn't return " ++
    "until the Camel application stops. "

/-- A task that starts the application with Maven. -/
def mavenTask : String :=
  shellTask "Start Camel application with camel.debug profile" "mvn" mavenNote
    ["\"camel:run\",", debugProfile] mavenBackground

/-- A task that starts the application with the development mode of Quarkus. -/
def quarkusTask : String :=
  shellTask "Start Camel application with Maven Quarkus Dev with camel.debug profile" "mvn"
    mavenNote ["\"compile\",", "\"quarkus:dev\",", debugProfile] mavenBackground

/-- A task that starts the application with JBang. -/
def jbangTask : String :=
  shellTask "Start Camel application with JBang with camel-debug" "jbang"
    "jbang binary must be available on command-line"
    ["\"-Dcamel.jbang.version=3.16.0\", " ++
       "// to adapt to your Camel version. 3.16+ is required",
     "\"camel@apache/camel\",",
     "\"run\",",
     "\"$\x7brelativeFile\x7d\", //to adapt to your workspace, " ++
       "using relativeFile means that the task must be launched when the file to start in debug " ++
       "in the active editor",
     "\"--logging-level=info\",",
     "\"--reload\",",
     "\"--dep=org.apache.camel:camel-debug\""]
    ("Must be set as background as the jbang command doesn't return " ++
      "until the Camel application stops. ")

/-- The offered tasks, in the order in which they are shown. -/
def launchers : List Item :=
  [{ label := "Start Camel application with Maven with camel.debug profile"
     documentation :=
       "Start Camel application with camel.debug profile. " ++
         "It provides extra-configuration required to combine with a Camel Debugger " ++
         "launch configuration as a preLaunchTask."
     insertText := mavenTask },
   { label := "Start Camel application with Maven Quarkus Dev with camel.debug profile"
     documentation :=
       "Start Camel application with Maven Quarkus dev and camel.debug profile. " ++
         "It provides extra-configuration required to combine with a Camel Debugger " ++
         "launch configuration as a preLaunchTask."
     insertText := quarkusTask },
   { label := "Start Camel application with JBang with camel-debug"
     documentation :=
       "Start debuggable Camel application with JBang. " ++
         "It provides extra-configuration required to combine with a Camel Debugger " ++
         "launch configuration as a preLaunchTask."
     insertText := jbangTask }]

end Item

/-! ## Lists -/

/-- The key of the task list. -/
def tasksKey : String := "tasks"

namespace Forest

/-- Whether one of the topmost nodes is a string with a given value. -/
def hasString (value : String) : Forest → Bool
  | .nil => false
  | .cons kind _ _ siblings => kind == .string value || siblings.hasString value

end Forest

namespace Node

/-- Whether the node with a given number is an array. -/
def isArrayAt (root : Node) (number : Nat) : Bool :=
  (root.get? number).any (·.kind == .array)

/-- Whether the parent of the node with a given number is a property that has a
string with a given value among its children. -/
def isUnder (root : Node) (key : String) (number : Nat) : Bool :=
  (root.parent? number).any fun parent => parent.kind.isProperty && parent.children.hasString key

/-- Whether the node with a given number is an array under a property with a
given key. -/
def isListOf (root : Node) (key : String) (number : Nat) : Bool :=
  root.isArrayAt number && root.isUnder key number

end Node

/-! ## Offers -/

/-- Items for the arrays under a key, and how documents are read. -/
structure Offer where
  key : String
  items : List Item
  options : Options
  deriving DecidableEq, Repr

namespace Offer

/-- Items for the arrays under a key. -/
def ofItems (key : String) (items : List Item) : Offer := ⟨key, items, default⟩

/-- The launch tasks, for the task list. -/
def launchers : Offer := ofItems tasksKey Item.launchers

/-- The items for a cursor at a byte offset of a document. -/
def within (offer : Offer) (document : Document) (offset : Nat) : List Item :=
  match document.tree with
  | none => []
  | some root =>
    if (root.atOffset? offset false).any (root.isListOf offer.key) then offer.items else []

/-- The items for a cursor at a byte offset of a text. -/
def atOffset (offer : Offer) (text : List Char) (offset : Nat) : List Item :=
  offer.within (Document.ofText offer.options text) offset

/-- The items for a cursor at an editor position in a text. -/
def atPosition (offer : Offer) (text : List Char) (position : Position) : List Item :=
  offer.atOffset text (Position.toOffset text position)

end Offer

end TaskFile
