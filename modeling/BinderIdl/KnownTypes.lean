import BinderIdl.Text.Blank
import BinderIdl.Text.Lines

/-! Names that are known to be Parcelable, and the reader of lists of them. -/
namespace BinderIdl.KnownTypes

/-- The list that is used when no other list is named. -/
def bundled : List String := [
  "android.accounts.Account",
  "android.accounts.AuthenticatorDescription",
  "android.app.ActivityManager.RunningAppProcessInfo",
  "android.app.ActivityManager.RunningServiceInfo",
  "android.app.ActivityManager.RunningTaskInfo",
  "android.app.Notification",
  "android.app.PendingIntent",
  "android.appwidget.AppWidgetProviderInfo",
  "android.bluetooth.BluetoothDevice",
  "android.content.ClipData",
  "android.content.ClipDescription",
  "android.content.ComponentName",
  "android.content.ContentProviderOperation",
  "android.content.ContentProviderResult",
  "android.content.ContentValues",
  "android.content.Intent",
  "android.content.IntentFilter",
  "android.content.IntentSender",
  "android.content.SyncAdapterType",
  "android.content.SyncResult",
  "android.content.pm.ActivityInfo",
  "android.content.pm.ApplicationInfo",
  "android.content.pm.ConfigurationInfo",
  "android.content.pm.FeatureInfo",
  "android.content.pm.InstrumentationInfo",
  "android.content.pm.PackageInfo",
  "android.content.pm.PermissionGroupInfo",
  "android.content.pm.PermissionInfo",
  "android.content.pm.ProviderInfo",
  "android.content.pm.ResolveInfo",
  "android.content.pm.ServiceInfo",
  "android.content.pm.Signature",
  "android.content.res.AssetFileDescriptor",
  "android.content.res.Configuration",
  "android.content.res.ColorStateList",
  "android.database.CursorWindow",
  "android.graphics.Bitmap",
  "android.graphics.Point",
  "android.graphics.PointF",
  "android.graphics.Rect",
  "android.graphics.RectF",
  "android.graphics.Region",
  "android.hardware.usb.UsbAccessory",
  "android.hardware.usb.UsbDevice",
  "android.location.Address",
  "android.location.Criteria",
  "android.location.Location",
  "android.media.MediaMetadata",
  "android.media.Rating",
  "android.net.DhcpInfo",
  "android.net.LocalSocketAddress",
  "android.net.NetworkInfo",
  "android.net.Uri",
  "android.net.wifi.ScanResult",
  "android.net.wifi.WifiConfiguration",
  "android.net.wifi.WifiInfo",
  "android.nfc.NdefMessage",
  "android.nfc.NdefRecord",
  "android.nfc.Tag",
  "android.os.Bundle",
  "android.os.DropBoxManager.Entry",
  "android.os.Message",
  "android.os.Messenger",
  "android.os.ParcelFileDescriptor",
  "android.os.ParcelUuid",
  "android.os.PatternMatcher",
  "android.os.ResultReceiver",
  "android.os.WorkSource",
  "android.telephony.CellLocation",
  "android.telephony.NeighboringCellInfo",
  "android.telephony.ServiceState",
  "android.telephony.SignalStrength",
  "android.text.style.URLSpan",
  "android.view.DisplayInfo",
  "android.view.InputDevice",
  "android.view.KeyEvent",
  "android.view.MotionEvent",
  "android.view.Surface",
  "android.view.WindowManager.LayoutParams",
  "android.view.inputmethod.CompletionInfo",
  "android.view.inputmethod.EditorInfo",
  "android.view.inputmethod.ExtractedText",
  "android.view.inputmethod.InputBinding",
  "android.view.inputmethod.InputMethodInfo",
  "android.view.textservice.SpellCheckerInfo",
  "android.view.textservice.SuggestionsInfo",
  "android.view.textservice.TextInfo",
  "android.widget.RemoteViews",
  "java.lang.CharSequence"]

/-- The names in the text of a list: one on each line, where blanks around it
do not matter. An empty line and a line that starts with a number sign hold no
name, and a repeated name counts once. -/
def read (cs : List Char) : List String :=
  let entries := (cs.splitOn '\n').map Text.strip
  let names := entries.filter fun entry => !entry.isEmpty && entry.head? != some '#'
  (names.map String.ofList).eraseDups

/-- Two collections of names as one, each name once. -/
def union (names extra : List String) : List String :=
  (names ++ extra).eraseDups

/-- Names in the order of their characters, each once. -/
def sorted (names : List String) : List String :=
  names.eraseDups.mergeSort fun a b => !decide (b < a)

end BinderIdl.KnownTypes
