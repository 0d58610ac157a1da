import RaceMonitor.Engine.Order

/-! The life of threads: fork, join, detach, finish, and their call stacks.

A child starts with all that its parent has observed, and a join brings the child's clock back.
A thread that was joined or has finished is retired: its id is not tracked any more and cannot
be forked again. -/
namespace RaceMonitor.State

def fork (s : State) (parent child : ThreadId) : State × List Output :=
  if child == parent || s.tables.threads.contains child || s.tables.retired.contains child then
    s.raiseAnomaly (.threadReused parent child)
  else
    let (p, s, noted) := s.thread parent
    match p with
    | none => (s.countUntracked, noted)
    | some p =>
      match s.reserve .threads s.tables.threads.size with
      | (false, s, out) => (s.countUntracked, noted ++ out)
      | (true, s, out) =>
        let tables := (s.tables.putThread p.tick).putThread (Thread.forked child p)
        (s.withTables tables, noted ++ out ++ tickNote p ++ [.note (.forked parent child)])

def join (s : State) (parent child : ThreadId) : State × List Output :=
  match s.tables.threads[child]?.filter fun _ => child != parent with
  | none => s.raiseAnomaly (.unknownThread child)
  | some c =>
    if c.lifecycle = .detached then s.raiseAnomaly (.joinDetached parent child)
    else
      let (p, s, noted) := s.thread parent
      match p with
      | none => (s.countUntracked, noted)
      | some p =>
        let observed := p.observe c.clock
        (s.withTables ((s.tables.putThread observed.tick).retire child),
          noted ++ tickNote observed ++ [.note (.joined parent child)])

def detach (s : State) (by_ tid : ThreadId) : State × List Output :=
  match s.tables.threads[tid]? with
  | some t => (s.withTables (s.tables.putThread t.detach), [.note (.detached by_ tid)])
  | none => s.raiseAnomaly (.unknownThread tid)

/-- Nothing that the thread has observed goes anywhere. -/
def finish (s : State) (by_ tid : ThreadId) : State × List Output :=
  if s.tables.threads.contains tid then
    (s.withTables (s.tables.retire tid), [.note (.finished by_ tid)])
  else s.raiseAnomaly (.unknownThread tid)

def enter (s : State) (tid : ThreadId) (pc : Word) : State × List Output :=
  let (t, s, noted) := s.thread tid
  match t with
  | none => (s.countUntracked, noted)
  | some t => (s.withTables (s.tables.putThread (t.enter pc)), noted)

def exit (s : State) (tid : ThreadId) : State × List Output :=
  let (t, s, noted) := s.thread tid
  match t with
  | none => (s.countUntracked, noted)
  | some t =>
    match t.exit? with
    | some (_, t) => (s.withTables (s.tables.putThread t), noted)
    | none =>
      let (s, out) := s.raiseAnomaly (.stackUnderflow tid)
      (s, noted ++ out)

end RaceMonitor.State
