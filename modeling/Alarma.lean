import Alarma.Library.Table
import Alarma.Library.Machine
import Alarma.Library.Catalogue
import Alarma.Library.ListScreen
import Alarma.Library.TableView
import Alarma.Library.SharedStore
import Alarma.Library.Acyclic
import Alarma.Library.Seek
import Alarma.Model.Entities
import Alarma.Model.Realm
import Alarma.Services.Repositories
import Alarma.Services.Decoding
import Alarma.Services.Integrity
import Alarma.Services.Refinement
import Alarma.Services.TimeOrder
import Alarma.Services.Saving
import Alarma.Services.RoundTrip
import Alarma.Services.Updating
import Alarma.Services.Storing
import Alarma.Services.EventKitHelper
import Alarma.Services.Calendar
import Alarma.Parents.BaseCoordinator
import Alarma.Parents.RemoveDependency
import Alarma.Parents.Cycles
import Alarma.Router.RouterImp
import Alarma.Router.Reentrancy
import Alarma.Application.ApplicationCoordinator
import Alarma.Application.LaunchFlows
import Alarma.Application.LaunchRuns
import Alarma.Application.Installation
import Alarma.Application.ReminderHistory
import Alarma.Flows.Reminders
import Alarma.Flows.GroupCoordinator
import Alarma.Flows.Recurrence
import Alarma.Flows.TabbarCoordinator
import Alarma.Flows.ListScreens
import Alarma.Flows.GroupsTab
import Alarma.Flows.GroupsTabEvents
import Alarma.Flows.GroupsTabRuns
import Alarma.Cron.CronCalendar
import Alarma.Cron.CronExpression
import Alarma.Cron.NextRun
import Alarma.Cron.GregorianRuns
import Alarma.Application.TabsOnScreen
