import RaceMonitor.Counters
import RaceMonitor.Json.Record
import RaceMonitor.Json.Writer

/-! Counters as JSON. All of them have to be given. -/
namespace RaceMonitor.Counters

def layout : Json.Layout Counters where
  fields :=
    [.word "reads" fun c n => { c with reads := n },
     .word "writes" fun c n => { c with writes := n },
     .word "same_epoch" fun c n => { c with sameEpoch := n },
     .word "races" fun c n => { c with races := n },
     .word "use_after_free" fun c n => { c with useAfterFree := n },
     .word "anomalies" fun c n => { c with anomalies := n },
     .word "untracked" fun c n => { c with untracked := n },
     .word "unmapped" fun c n => { c with unmapped := n }]
  complete := true

def ofJson (text : String) : Except Json.Fault Counters := layout.read .zero text

def toJson (c : Counters) : String :=
  Json.objectText (c.fields.map fun f => (f.1, .natural f.2.toNat))

end RaceMonitor.Counters
