/-!
# Threads

A frame loop runs on one of three threads. One of them produces resources, and
each of the others may follow it.
-/

namespace Framecast

/-- A frame loop that produces or follows resources. -/
inductive Thread where
  /-- The simulation loop. -/
  | game
  /-- The drawing loop. -/
  | render
  /-- The loop of the host. -/
  | main
  deriving DecidableEq, Repr, Inhabited

namespace Thread

/-- All threads. -/
def all : List Thread := [game, render, main]

/-- The name used in configuration texts. -/
def name : Thread → String
  | game => "game"
  | render => "render"
  | main => "main"

/-- The name used in messages. -/
def label : Thread → String
  | game => "Game"
  | render => "Render"
  | main => "Main"

/-- The thread of a configuration name. -/
def ofName? (text : String) : Option Thread := all.find? (·.name == text)

@[simp] theorem ofName?_name (t : Thread) : ofName? t.name = some t := by cases t <;> decide

end Thread

end Framecast
