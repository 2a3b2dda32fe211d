import Stmgc.C7.FinalizerOrder
import Stmgc.C7.AbortTwice
import Stmgc.C7.SyncSafety
import Stmgc.C7.ExecuteFinalizers
import Stmgc.C7.ReadMarkers
import Stmgc.C7.LightFinalizersOnce
import Stmgc.C8.InevitableExclusive
import Stmgc.C8.AbortSnapshot
import Stmgc.C7.Callbacks
import Stmgc.C7.RewindJmpRestore
import Stmgc.C7.NurseryRun
import Stmgc.C7.OverflowNumberRun
import Stmgc.C7.HashIdRun
import Stmgc.C4.PrivateFromProtected
import Stmgc.Duhton.TransactionOnce
import Stmgc.C7.CommitFinalizers
import Stmgc.C7.Tree
import Stmgc.C7.YoungFinalizersKept
import Stmgc.C7.HashtableYoung
import Stmgc.C7.Prebuilt
import Stmgc.C8.Segments
import Stmgc.C4.AbortInfo
import Stmgc.C8.Backups
import Stmgc.C8.PageIsolation
import Stmgc.C4.GcPageRuns
import Stmgc.C4.FxCache
import Stmgc.C7.CardBytes
import Stmgc.Duhton.FrameMaps
import Stmgc.Duhton.CompileRun
import Stmgc.C7.WriteMarkersRun
