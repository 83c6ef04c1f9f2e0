import WeatherStation.Weather.Fetch
import WeatherStation.Weather.ReceiveBuffer
import WeatherStation.Weather.CityRefresh
import WeatherStation.Weather.Determined
import WeatherStation.Network.WifiConnect
import WeatherStation.Network.WifiResources
import WeatherStation.Network.WlanInit
import WeatherStation.Display.StalePixels
import WeatherStation.Display.LineBuffers
import WeatherStation.Display.ClockMode
import WeatherStation.Display.Isolation
import WeatherStation.Display.TextLayout
import WeatherStation.Display.TextScan
import WeatherStation.Display.ShowChar
import WeatherStation.Display.ShowString
import WeatherStation.Display.FontRead
import WeatherStation.Display.IconPath
import WeatherStation.Display.PictureFile
import WeatherStation.Display.Line
import WeatherStation.Display.Fill
import WeatherStation.Display.FillLoop
import WeatherStation.Display.Raster
import WeatherStation.Drivers.Tick
import WeatherStation.Drivers.Uart
import WeatherStation.Drivers.PinIrq
import WeatherStation.Voice.Asr
import WeatherStation.Audio.NodeList
import WeatherStation.Storage.WifiConfig
import WeatherStation.Storage.Base64
import WeatherStation.Storage.FlashReport
import WeatherStation.Storage.FlashErase
import WeatherStation.Storage.FlashMemory
import WeatherStation.Storage.FlashPartition
import WeatherStation.Weather.JsonSafety
import WeatherStation.Weather.JsonResponse
import WeatherStation.Foundation.Wire
import WeatherStation.Network.HttpFetch
import WeatherStation.Storage.EnvStale
