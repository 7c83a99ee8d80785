/-
The text in which metrics are exposed.

* `exposition` — the gauges of a registry in ascending order of their names, each with its
  help and its type;
* `processFamilies` — the metrics that the process as a whole has, with their types.
-/
import LeaseKeeper.Decimal.Whole
import LeaseKeeper.Metrics.Registry

namespace LeaseKeeper.Metrics

/-- How a metric behaves. -/
inductive Kind where
  | gauge
  | counter
  deriving DecidableEq, Repr

def Kind.name : Kind → String
  | .gauge => "gauge"
  | .counter => "counter"

/-- One character of a help text: one that would end the line is escaped. -/
def helpChar : Char → List Char
  | '\\' => ['\\', '\\']
  | '\n' => ['\\', 'n']
  | c => [c]

/-- The line with the help of a metric. -/
def helpLine (name help : String) : List Char :=
  "# HELP ".toList ++ name.toList ++ ' ' :: (help.toList.flatMap helpChar ++ ['\n'])

def typeLine (name : String) (kind : Kind) : List Char :=
  "# TYPE ".toList ++ name.toList ++ ' ' :: (kind.name.toList ++ ['\n'])

/-- The line with the value of a gauge. -/
def valueLine (g : Gauge) : List Char :=
  g.name.toList ++ ' ' :: (Decimal.wholeText g.value.toInt ++ ['\n'])

def family (g : Gauge) : List Char :=
  helpLine g.name g.help ++ typeLine g.name .gauge ++ valueLine g

def exposition (r : Registry) : List Char :=
  (r.gauges.mergeSort fun a b => a.name ≤ b.name).flatMap family

/-- The metrics of the process, in ascending order of their names. -/
def processFamilies : List (String × Kind) := [
  ("process_cpu_seconds_total", .counter),
  ("process_max_fds", .gauge),
  ("process_open_fds", .gauge),
  ("process_resident_memory_bytes", .gauge),
  ("process_start_time_seconds", .gauge),
  ("process_threads", .gauge),
  ("process_virtual_memory_bytes", .gauge)]

end LeaseKeeper.Metrics
