import Infod.Daemon.AllOrNothing
import Infod.Daemon.Backpressure
import Infod.Daemon.BufferMemory
import Infod.Daemon.ErrorEnds
import Infod.Daemon.Mirror
import Infod.Daemon.Discipline
import Infod.Daemon.Escaping
import Infod.Daemon.LinkedList
import Infod.Daemon.MatchPointers
import Infod.Daemon.Main
import Infod.Daemon.PatternGrammar
import Infod.Info.Connect
import Infod.Info.EndToEnd
import Infod.Info.Program
import Infod.Proto.Session
import Infod.Proto.TextBuffer
import Infod.Server.Dispatch
import Infod.Store.Extents
import Infod.Store.Recovery
