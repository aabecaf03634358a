import CollectionRunner.External.Export
import CollectionRunner.Proofs.Json.Members

/-!
# What is known of a report

The members that each record of a report knows, and that its reader sees no more than those. An
address is taken whole. Main statement: `Export.sees`.
-/

namespace CollectionRunner.External

open Json Decoder

/-- Something with a name. -/
def Named.shape : Shape := .record [("name", .scalar)]

theorem Named.sees : Sees shape decode :=
  SeesMembers.closedRecord (.cons (Slot.sees_of sees_string.optional _) .nil) _ _

/-- An error. -/
def ErrorInfo.shape : Shape := .record [("name", .scalar), ("test", .scalar), ("message", .scalar)]

theorem ErrorInfo.sees : Sees shape decode := by
  refine SeesMembers.closedRecord (.cons ?_ (.cons ?_ (.cons ?_ .nil))) _ _
  · exact Slot.sees_of sees_string.optional _
  · exact Slot.sees_of sees_string.optional _
  · exact Slot.sees_of sees_string.optional _

/-- An assertion. -/
def AssertionInfo.shape : Shape := .record [("assertion", .scalar), ("error", ErrorInfo.shape)]

theorem AssertionInfo.sees : Sees shape decode := by
  refine SeesMembers.closedRecord (.cons ?_ (.cons ?_ .nil)) _ _
  · exact Slot.sees_of sees_string _
  · exact Slot.sees_of ErrorInfo.sees.optional _

/-- A request; its address is taken whole. -/
def RequestInfo.shape : Shape := .record [("method", .scalar), ("url", .whole)]

theorem RequestInfo.sees : Sees shape decode := by
  refine SeesMembers.closedRecord (.cons ?_ (.cons ?_ .nil)) _ _
  · exact Slot.sees_of sees_string.optional _
  · exact Slot.sees_of (sees_whole _) _

/-- A response. -/
def ResponseInfo.shape : Shape :=
  .record [("code", .scalar), ("responseTime", .scalar), ("responseSize", .scalar)]

theorem ResponseInfo.sees : Sees shape decode := by
  refine SeesMembers.closedRecord (.cons ?_ (.cons ?_ (.cons ?_ .nil))) _ _
  · exact Slot.sees_of (sees_nat _).optional _
  · exact Slot.sees_of sees_binary64.optional _
  · exact Slot.sees_of (sees_nat _).optional _

/-- What became of a request. -/
def ExecutionInfo.shape : Shape :=
  .record [("item", Named.shape), ("request", RequestInfo.shape), ("response", ResponseInfo.shape),
    ("assertions", .list AssertionInfo.shape), ("requestError", ErrorInfo.shape)]

theorem ExecutionInfo.sees : Sees shape decode := by
  refine SeesMembers.closedRecord (.cons ?_ (.cons ?_ (.cons ?_ (.cons ?_ (.cons ?_ .nil))))) _ _
  · exact Slot.sees_of Named.sees _
  · exact Slot.sees_of RequestInfo.sees _
  · exact Slot.sees_of ResponseInfo.sees.optional _
  · exact Slot.sees_of AssertionInfo.sees.array _
  · exact Slot.sees_of ErrorInfo.sees.optional _

/-- A failure. -/
def FailureInfo.shape : Shape :=
  .record [("error", ErrorInfo.shape), ("source", Named.shape), ("at", .scalar)]

theorem FailureInfo.sees : Sees shape decode := by
  refine SeesMembers.closedRecord (.cons ?_ (.cons ?_ (.cons ?_ .nil))) _ _
  · exact Slot.sees_of ErrorInfo.sees _
  · exact Slot.sees_of Named.sees.optional _
  · exact Slot.sees_of sees_string.optional _

/-- A counter. -/
def counterShape : Shape := .record [("total", .scalar), ("failed", .scalar)]

theorem sees_counter : Sees counterShape counter := by
  refine SeesMembers.closedRecord (.cons ?_ (.cons ?_ .nil)) _ _
  · exact Slot.sees_of (sees_nat _) _
  · exact Slot.sees_of (sees_nat _) _

/-- The counts of a run. -/
def statsShape : Shape := .record [("requests", counterShape), ("assertions", counterShape)]

theorem sees_stats : Sees statsShape stats := by
  refine SeesMembers.closedRecord (.cons ?_ (.cons ?_ .nil)) _ _
  · exact Slot.sees_of sees_counter _
  · exact Slot.sees_of sees_counter _

/-- The start and the end of a run. -/
def Timings.shape : Shape := .record [("started", .scalar), ("completed", .scalar)]

theorem Timings.sees : Sees shape decode := by
  refine SeesMembers.closedRecord (.cons ?_ (.cons ?_ .nil)) _ _
  · exact Slot.sees_of (sees_int _ _).optional _
  · exact Slot.sees_of (sees_int _ _).optional _

/-- A run. -/
def RunInfo.shape : Shape :=
  .record [("stats", statsShape), ("executions", .list ExecutionInfo.shape),
    ("failures", .list FailureInfo.shape), ("timings", Timings.shape)]

theorem RunInfo.sees : Sees shape decode := by
  refine SeesMembers.closedRecord (.cons ?_ (.cons ?_ (.cons ?_ (.cons ?_ .nil)))) _ _
  · exact Slot.sees_of sees_stats _
  · exact Slot.sees_of ExecutionInfo.sees.array _
  · exact Slot.sees_of FailureInfo.sees.array _
  · exact Slot.sees_of Timings.sees _

/-- The collection of a report. -/
def CollectionRef.shape : Shape := .record [("info", Named.shape)]

theorem CollectionRef.sees : Sees shape decode :=
  SeesMembers.closedRecord (.cons (Slot.sees_of Named.sees _) .nil) _ _

/-- A report. -/
def Export.shape : Shape := .record [("collection", CollectionRef.shape), ("run", RunInfo.shape)]

/-- The reader of a report sees the members that are known, at every depth. -/
theorem Export.sees : Sees shape decode := by
  refine SeesMembers.closedRecord (.cons ?_ (.cons ?_ .nil)) _ _
  · exact Slot.sees_of CollectionRef.sees _
  · exact Slot.sees_of RunInfo.sees _

end CollectionRunner.External
